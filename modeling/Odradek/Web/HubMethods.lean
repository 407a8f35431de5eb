import Odradek.Library.AssocMap
import Odradek.Web.HubRules

/-!
What each method of `Hub` does while its caller holds the lock: what it puts on
record, how it changes the map, and what it knows of the pump it hands out.
-/

namespace Odradek.Web

open Library HubWorld

variable {fine : Nat → HubOp → HubChoice → HubWorld → Bool} {i : Nat} {s s₀ t u v w : HubWorld}
  {α β : Type} {P : HubEvent → Prop} {X Y : List PumpHandle} {handle : PumpHandle}

/-- What acquiring the pump of a key may put on record. -/
def HubEvent.Basic (key : PumpKey) : HubEvent → Prop
  | .approved _ | .listed _ _ | .gone _ | .told _ => True
  | .started handle => handle.key = key
  | _ => False

section Map

variable {key : PumpKey} {hub : Hub}

/-- A pump enters the map under its own key, where there is room. -/
theorem HubOk.insertPump (key : PumpKey) (h : HubOk fine w) (hkey : handle.key = key)
    (hborn : w.Born handle)
    (hvetted : w.Vetted key)
    (hroom : RoomKept fine → key ∈ w.hub.pumps ∨ w.hub.pumps.entries.length < w.hub.maxPumps)
    (hnever : NeverLate fine → w.hub.shutDown = false) :
    HubOk fine { w with hub := w.hub.insertPump key handle } := by
  refine ⟨?_, h.cached, ?_, ?_⟩
  · intro key' handle' hlookup
    rcases lookup_insert_cases hlookup with ⟨rfl, rfl⟩ | ⟨_, hold⟩
    · exact ⟨hkey, hborn, hvetted⟩
    · exact h.keyed key' handle' hold
  · intro hkept
    show (w.hub.pumps.insert key handle).entries.length ≤ w.hub.maxPumps
    rcases hroom hkept with hmem | hlt
    · rw [length_insert_of_mem hmem]
      exact h.cap hkept
    · by_cases hmem : key ∈ w.hub.pumps
      · rw [length_insert_of_mem hmem]
        exact h.cap hkept
      · rw [length_insert_of_notMem hmem]
        exact hlt
  · intro hn hshut
    cases (hnever hn).symm.trans hshut

/-- Fewer entries, and nothing else about the hub. -/
theorem HubOk.shrink (pumps : AList fun _ : PumpKey => PumpHandle) (h : HubOk fine w)
    (hsub : ∀ key handle, pumps.lookup key = some handle → w.hub.pumps.lookup key = some handle)
    (hlength : pumps.entries.length ≤ w.hub.pumps.entries.length) :
    HubOk fine { w with hub := { w.hub with pumps } } := by
  refine ⟨fun key handle hlookup => h.keyed key handle (hsub key handle hlookup), h.cached,
    fun hkept => Nat.le_trans hlength (h.cap hkept), fun hn hshut => ?_⟩
  have hnone := h.shut hn hshut
  rw [hnone] at hlength
  exact List.eq_nil_of_length_eq_zero (Nat.le_zero.mp hlength)

theorem HubOk.removePump (key : PumpKey) (h : HubOk fine w) :
    HubOk fine { w with hub := w.hub.removePump key } :=
  h.shrink _ (fun _ _ hlookup => (lookup_erase_cases hlookup).2) (length_erase_le _ _)

theorem HubOk.cache {topic : String} {partitions : List Int} (h : HubOk fine w)
    (haccepted : w.Accepted topic) (hlisted : w.Listed topic partitions) :
    HubOk fine { w with hub := { w.hub with topics := w.hub.topics.insert topic partitions } } := by
  refine ⟨h.keyed, fun topic' partitions' hlookup => ?_, h.cap, h.shut⟩
  have hlookup' : (w.hub.topics.insert topic partitions).lookup topic' = some partitions' := hlookup
  by_cases htopic : topic' = topic
  · rw [htopic, AList.lookup_insert] at hlookup'
    rw [htopic, ← Option.some.inj hlookup']
    exact ⟨haccepted, hlisted⟩
  · rw [AList.lookup_insert_ne htopic] at hlookup'
    exact h.cached topic' partitions' hlookup'

theorem HubOk.forgetTopics (h : HubOk fine w) :
    HubOk fine { w with hub := { w.hub with topics := ∅ } } :=
  ⟨h.keyed, fun _ _ hlookup => (by cases hlookup), h.cap, h.shut⟩

/-- A pump takes its place in the map, over one that has left it. -/
theorem mapped_insert (h : w.MappedBut (handle :: X)) (hkey : handle.key = key)
    (hleft : ¬ w.Left handle) (hold : ∀ handle', handle'.key = key → handle' ≠ handle →
      w.InMap handle' → handle' ∈ X) (hX : ∀ handle' ∈ X, w.Left handle' ∧ handle'.key = key) :
    ({ w with hub := w.hub.insertPump key handle } : HubWorld).Mapped := by
  intro handle' hborn _
  show (w.hub.pumps.insert key handle).lookup handle'.key = some handle' ↔ ¬ w.Left handle'
  by_cases heq : handle' = handle
  · rw [heq, hkey, AList.lookup_insert]
    exact ⟨fun _ => hleft, fun _ => rfl⟩
  · by_cases hsame : handle'.key = key
    · rw [hsame, AList.lookup_insert]
      refine ⟨fun h => absurd (Option.some.inj h).symm heq, fun hn => ?_⟩
      by_cases hx : handle' ∈ X
      · exact absurd (hX handle' hx).1 hn
      · have hx' : handle' ∉ handle :: X := fun hm =>
          (List.mem_cons.mp hm).elim heq hx
        exact absurd (hold handle' hsame heq ((h handle' hborn hx').mpr hn)) hx
    · rw [AList.lookup_insert_ne hsame]
      refine h handle' hborn fun hm => ?_
      exact (List.mem_cons.mp hm).elim heq fun hx => hsame (hX handle' hx).2

/-- Pumps of `Y` leave the map. -/
theorem mapped_shrink (pumps : AList fun _ : PumpKey => PumpHandle) (h : w.MappedBut X)
    (hsub : ∀ handle, handle ∉ Y → (pumps.lookup handle.key = some handle ↔ w.InMap handle))
    (hX : ∀ handle ∈ X, handle ∈ Y) :
    ({ w with hub := { w.hub with pumps } } : HubWorld).MappedBut Y := by
  intro handle hborn hy
  exact (hsub handle hy).trans (h handle hborn fun hx => hy (hX handle hx))

end Map

section Gate

variable {topic : String}

/-- A topic that passes is one the gate accepted, of a hub that is up. -/
theorem sat_checkTopic {Q : Except HubError Unit → HubWorld → Prop} (h : HeldBut fine i P X s₀ s)
    (hP : P (.approved topic))
    (k : ∀ r t, HeldBut fine i P X s₀ t → HubInv fine t → Grown fine s t → t.hub = s.hub →
      (r = .ok () → t.Accepted topic ∧ t.hub.shutDown = false) → Q r t) :
    HubSat fine i (Hub.checkTopic topic).run Q s := by
  refine Discipline.Sat.liftBind (sat_read h fun t hrely ht hinv hhub => ?_)
  split
  next =>
      intro v hv hinv'
      exact k _ v (ht.rely hv) hinv' (hrely.grown.trans hv.grown) ((hv.hub ht.holder).trans hhub)
        nofun
  next hup =>
      have hup' : s.hub.shutDown = false := Bool.eq_false_iff.mpr hup
      split
      next hgate =>
          intro v hv hinv'
          have hsv := hrely.grown.trans hv.grown
          refine k _ v (ht.rely hv) hinv' hsv ((hv.hub ht.holder).trans hhub) fun _ => ⟨.inl ?_, ?_⟩
          · exact hsv.gate.trans hgate
          · rw [hv.hub ht.holder, hhub, hup']
      next =>
          refine Discipline.Sat.liftBind (sat_askGate ?_ ?_)
          · intro v hv hinv' v' hv' hinv''
            have htv := hv.trans hv'
            exact k _ v' (ht.rely htv) hinv'' (hrely.grown.trans htv.grown)
              ((htv.hub ht.holder).trans hhub) nofun
          · intro v hv hinv' v' hv' hinv''
            have hheld := ht.plain hv hP nofun (by rintro _ (hl | hl | hl) <;> cases hl)
            have hhub' := (hv'.hub hheld.holder).trans ((hv.hub ht.holder).trans hhub)
            refine k _ v' (hheld.rely hv') hinv''
              ((hrely.grown.trans hv.grown).trans hv'.grown) hhub' fun _ => ⟨.inr ?_, ?_⟩
            · exact hv'.grown.did _ hv.did
            · rw [hhub', hup']
      next =>
          intro v hv hinv'
          exact k _ v (ht.rely hv) hinv' (hrely.grown.trans hv.grown)
            ((hv.hub ht.holder).trans hhub) nofun

/-- Nothing but the partition cache changed. -/
def SameMap (s t : HubWorld) : Prop := t.hub = { s.hub with topics := t.hub.topics }

theorem SameMap.of_eq (h : t.hub = s.hub) : SameMap s t := by rw [SameMap, h]

theorem SameMap.trans (h : SameMap s t) (h' : SameMap t u) : SameMap s u := by
  rw [SameMap, h', h]

/-- The gate accepted the topic of a hub that is up, and the source listed these. -/
def Known (topic : String) (w : HubWorld) (partitions : List Int) : Prop :=
  w.Accepted topic ∧ w.Listed topic partitions ∧ w.hub.shutDown = false

/-- The partitions are those of a source that listed them, now or earlier. -/
theorem sat_knownPartitions {Q : Except HubError (List Int) → HubWorld → Prop}
    (h : HeldBut fine i P X s₀ s) (hP : P (.approved topic))
    (hP' : ∀ answer, P (.listed topic answer))
    (k : ∀ r t, HeldBut fine i P X s₀ t → HubInv fine t → Grown fine s t → SameMap s t →
      (∀ partitions, r = .ok partitions → Known topic t partitions) → Q r t) :
    HubSat fine i (Hub.knownPartitions topic).run Q s := by
  refine Discipline.Sat.tryBind (sat_checkTopic h hP fun r t ht hinv hst hhub hok => ?_)
  cases r with
  | error e => exact k _ t ht hinv hst (.of_eq hhub) nofun
  | ok _ =>
      obtain ⟨haccepted, hup⟩ := hok rfl
      refine Discipline.Sat.liftBind (sat_read ht fun v hrv hv hinv' hhub' => ?_)
      have htv := hrv.grown
      split
      next partitions hlookup =>
          intro v' hrely hinv''
          have hlisted := (hinv'.hub.cached topic partitions (hhub' ▸ hlookup)).2
          have hhub'' := (hrely.hub hv.holder).trans (hhub'.trans hhub)
          refine k _ v' (hv.rely hrely) hinv'' ((hst.trans htv).trans hrely.grown)
            (.of_eq hhub'') fun ps heq => ?_
          cases heq
          refine ⟨(htv.trans hrely.grown).accepted haccepted, hrely.grown.did _ hlisted, ?_⟩
          rw [hhub'', ← hhub, hup]
      next =>
          refine Discipline.Sat.tryBind (sat_fromSource (sat_listPartitions ?_))
          intro answer v₁ hnoted hinv₁ v₂ hrely hinv₂
          have hv₁ := hv.plain hnoted (hP' answer) nofun (by rintro _ (hl | hl | hl) <;> cases hl)
          have hv₂ := hv₁.rely hrely
          have hhub₂ : v₂.hub = t.hub := (hrely.hub hv₁.holder).trans
            ((hnoted.hub hv.holder).trans hhub')
          have hgrown₂ := htv.trans (hnoted.grown.trans hrely.grown)
          cases answer with
          | error e => exact k _ v₂ hv₂ hinv₂ (hst.trans hgrown₂) (.of_eq (hhub₂.trans hhub)) nofun
          | ok partitions =>
              refine Discipline.Sat.liftBind (Discipline.Sat.bind (sat_read hv₂ ?_))
              intro v₃ hrely₃ hv₃ hinv₃ hhub₃
              have hlisted : v₃.Listed topic partitions :=
                (hrely.grown.trans hrely₃.grown).did _ hnoted.did
              have haccepted₃ := (hgrown₂.trans hrely₃.grown).accepted haccepted
              refine sat_write hv₃ (by rw [hhub₃]) (by rw [hhub₃]; exact id) ?_ ?_ ?_ ?_ (Y := X)
              · intro v₄ hgrown₄ hinv₄ hhub₄
                have hok := hinv₄.hub.cache (hgrown₄.accepted haccepted₃) (hgrown₄.did _ hlisted)
                rw [hhub₄, hhub₃] at hok
                exact hok
              · intro v₄ hv₄ _ hhub₄ handle hborn hx
                rw [← hhub₃, ← hhub₄]
                exact hv₄.mapped handle hborn hx
              · exact fun key handle hlookup => .inl (hhub₃ ▸ hlookup)
              · intro v₄ hv₄ hinv₄ hgrown₄ _ hhub₄ v₅ hrely₅ hinv₅
                have hgrown := hrely₃.grown.trans (hgrown₄.trans hrely₅.grown)
                have hhub₅ : v₅.hub =
                    { s.hub with topics := v₂.hub.topics.insert topic partitions } := by
                  rw [hrely₅.hub hv₄.holder, hhub₄, hhub₂, hhub]
                refine k _ v₅ (hv₄.rely hrely₅) hinv₅ (hst.trans (hgrown₂.trans hgrown))
                  (by rw [SameMap, hhub₅]) fun ps heq => ?_
                cases heq
                refine ⟨(hgrown₄.trans hrely₅.grown).accepted haccepted₃,
                  (hgrown₄.trans hrely₅.grown).did _ hlisted, ?_⟩
                rw [hhub₅, ← hhub]
                exact hup

theorem sat_checkPartition {partition : Int} {Q : Except HubError Unit → HubWorld → Prop}
    (h : HeldBut fine i P X s₀ s) (hP : P (.approved topic))
    (hP' : ∀ answer, P (.listed topic answer))
    (k : ∀ r t, HeldBut fine i P X s₀ t → HubInv fine t → Grown fine s t → SameMap s t →
      (r = .ok () → t.Vetted (topic, partition) ∧ t.hub.shutDown = false) → Q r t) :
    HubSat fine i (Hub.checkPartition topic partition).run Q s := by
  refine Discipline.Sat.tryBind
    (sat_knownPartitions h hP hP' fun r t ht hinv hgrown hsame hok => ?_)
  cases r with
  | error e => exact k _ t ht hinv hgrown hsame nofun
  | ok partitions =>
      obtain ⟨haccepted, hlisted, hup⟩ := hok partitions rfl
      have hsame' : ∀ v, Rely fine i t v → SameMap s v := fun v hrely =>
        hsame.trans (.of_eq (hrely.hub ht.holder))
      dsimp only
      split
      next hmem =>
          intro v hrely hinv'
          refine k _ v (ht.rely hrely) hinv' (hgrown.trans hrely.grown) (hsame' v hrely)
            fun _ => ⟨hrely.grown.vetted ⟨haccepted, partitions, hlisted, hmem⟩, ?_⟩
          rw [hrely.hub ht.holder, hup]
      next =>
          intro v hrely hinv'
          exact k _ v (ht.rely hrely) hinv' (hgrown.trans hrely.grown) (hsame' v hrely) nofun

end Gate

section Reap

/-- The pumps found dead are on record, and still in the map. -/
theorem sat_exitedKeys {entries : List (Sigma fun _ : PumpKey => PumpHandle)}
    {Q : List PumpKey → HubWorld → Prop} (h : HeldBut fine i P X s₀ s)
    (hP : ∀ handle, P (.gone handle)) (hborn : ∀ e ∈ entries, s.Born e.2 ∧ e.2.key = e.1)
    (k : ∀ keys gone t, HeldBut fine i P (gone ++ X) s₀ t → HubInv fine t → Grown fine s t →
      t.hub = s.hub → (∀ handle ∈ gone, t.Gone handle ∧ handle.key ∈ keys) →
      (∀ key ∈ keys, ∃ e ∈ entries, e.1 = key ∧ e.2 ∈ gone) →
      (∀ e ∈ entries, e.1 ∉ keys → s.isOpen e.2.channel = true) → Q keys t) :
    HubSat fine i (Hub.exitedKeys entries) Q s := by
  induction entries generalizing s X Q with
  | nil =>
      intro t hrely hinv
      exact k [] [] t (h.rely hrely) hinv hrely.grown (hrely.hub h.holder)
        (fun _ hm => absurd hm List.not_mem_nil) (fun _ hm => absurd hm List.not_mem_nil)
        fun _ hm => absurd hm List.not_mem_nil
  | cons entry rest ih =>
      obtain ⟨hentry, hkey⟩ := hborn entry List.mem_cons_self
      have hrest : ∀ t, Grown fine s t → ∀ e ∈ rest, t.Born e.2 ∧ e.2.key = e.1 := by
        intro t hgrown e he
        obtain ⟨hb, hk⟩ := hborn e (List.mem_cons_of_mem _ he)
        exact ⟨hgrown.did _ hb, hk⟩
      refine Discipline.Sat.bind (sat_isDead hentry fun dead t hrely hinv hdead hopen => ?_)
      have ht := h.rely hrely
      have hmono : ∀ e ∈ rest, t.isOpen e.2.channel = true → s.isOpen e.2.channel = true := by
        intro e he hopen'
        refine Bool.eq_true_of_not_eq_false fun hclosed => ?_
        rw [hrely.grown.closed e.2 (hborn e (List.mem_cons_of_mem _ he)).1 hclosed] at hopen'
        cases hopen'
      cases dead with
      | false =>
          refine ih ht (hrest t hrely.grown) ?_
          intro keys gone u hu hinv' hgrown hhub hgone hkeys hlive
          refine k keys gone u hu hinv' (hrely.grown.trans hgrown)
            (hhub.trans (hrely.hub h.holder)) hgone ?_ ?_
          · intro key hm
            obtain ⟨e, he, hrest'⟩ := hkeys key hm
            exact ⟨e, List.mem_cons_of_mem _ he, hrest'⟩
          · intro e he hnot
            rcases List.mem_cons.mp he with rfl | he
            · exact Bool.eq_true_of_not_eq_false fun hclosed => Bool.noConfusion (hopen hclosed)
            · exact hmono e he (hlive e he hnot)
      | true =>
          have hclosed := hdead rfl
          refine Discipline.Sat.bind (sat_note nofun ?_ ?_)
          · intro handle hl
            rcases hl with hl | hl | hl <;> cases hl
            exact ⟨ht.holder, hrely.grown.did _ hentry, .inl hclosed, fun _ => hclosed⟩
          · intro u hnoted hinv'
            have hu : HeldBut fine i P (entry.2 :: X) s₀ u :=
              ht.noted hnoted (hP _) nofun (fun _ => List.mem_cons_of_mem _) (by
                rintro handle (hl | hl | hl) <;> cases hl
                exact List.mem_cons_self)
            refine Discipline.Sat.bind (ih hu (hrest u (hrely.grown.trans hnoted.grown)) ?_)
            intro keys gone v hv hinv'' hgrown hhub hgone hkeys hlive x hrely' hinv₃
            have hx := hv.rely hrely'
            refine k (entry.1 :: keys) (gone ++ [entry.2]) x
              (by rw [List.append_assoc]; exact hx) hinv₃
              ((hrely.grown.trans hnoted.grown).trans (hgrown.trans hrely'.grown)) ?_ ?_ ?_ ?_
            · rw [hrely'.hub hv.holder, hhub, hnoted.hub ht.holder, hrely.hub h.holder]
            · intro handle hm
              rcases List.mem_append.mp hm with hm | hm
              · obtain ⟨hg, hk⟩ := hgone handle hm
                exact ⟨hrely'.grown.did _ hg, List.mem_cons_of_mem _ hk⟩
              · rw [List.mem_singleton.mp hm, hkey]
                exact ⟨(hgrown.trans hrely'.grown).did _ hnoted.did, List.mem_cons_self⟩
            · intro key hm
              rcases List.mem_cons.mp hm with rfl | hm
              · exact ⟨entry, List.mem_cons_self, rfl,
                  List.mem_append_right _ List.mem_cons_self⟩
              · obtain ⟨e, he, heq, hg⟩ := hkeys key hm
                exact ⟨e, List.mem_cons_of_mem _ he, heq, List.mem_append_left _ hg⟩
            · intro e he hnot
              rcases List.mem_cons.mp he with rfl | he
              · exact absurd List.mem_cons_self hnot
              · refine hmono e he (Bool.eq_true_of_not_eq_false fun hcl => ?_)
                have hopen' := hlive e he fun hm => hnot (List.mem_cons_of_mem _ hm)
                rw [hnoted.grown.closed e.2 (hrest t hrely.grown e he).1 hcl] at hopen'
                cases hopen'

/-- The pumps left in the map are open. -/
theorem sat_reapExitedPumps {Q : Nat → HubWorld → Prop} (h : Held fine i P s₀ s)
    (hP : ∀ handle, P (.gone handle))
    (k : ∀ count pumps t, Held fine i P s₀ t → HubInv fine t → Grown fine s t →
      t.hub = { s.hub with pumps } → (∀ key handle, pumps.lookup key = some handle →
        s.hub.pumps.lookup key = some handle ∧ s.isOpen handle.channel = true) → Q count t) :
    HubSat fine i Hub.reapExitedPumps Q s := by
  refine Discipline.Sat.bind (sat_read h fun t hrely ht hinv hhub => ?_)
  have hborn : ∀ e ∈ s.hub.pumps.entries, t.Born e.2 ∧ e.2.key = e.1 := by
    intro e he
    obtain ⟨hk, hb, _⟩ := hinv.hub.keyed e.1 e.2 (hhub ▸ lookup_eq_some_iff.mpr he)
    exact ⟨hb, hk⟩
  refine Discipline.Sat.bind (sat_exitedKeys ht hP hborn ?_)
  intro keys gone u hu hinv' hgrown hhub' hgone hkeys hlive
  have hhub'' : u.hub = s.hub := hhub'.trans hhub
  have hsub : ∀ key handle, (s.hub.eraseAll keys).pumps.lookup key = some handle ↔
      key ∉ keys ∧ s.hub.pumps.lookup key = some handle := fun key handle =>
    lookup_foldl_erase keys s.hub.pumps
  refine Discipline.Sat.bind (sat_write hu (by rw [hhub'']; rfl)
    (by rw [hhub'']; exact id) ?_ ?_ ?_ ?_ (Y := gone))
  · intro v _ hinv₃ hhub₃
    rw [hhub''] at hhub₃
    have hok := hinv₃.hub.shrink (s.hub.eraseAll keys).pumps
      (by rw [hhub₃]; exact fun key handle hl => ((hsub key handle).mp hl).2)
      (by rw [hhub₃]; exact length_foldl_erase_le keys s.hub.pumps)
    rw [hhub₃] at hok
    exact hok
  · intro v hv _ hhub₃
    rw [hhub''] at hhub₃
    have hmapped := mapped_shrink (s.hub.eraseAll keys).pumps (Y := gone) hv.mapped ?_
      (fun handle hm => (List.mem_append.mp hm).resolve_right List.not_mem_nil)
    · rw [hhub₃] at hmapped
      exact hmapped
    · intro handle hnot
      rw [hsub, InMap, hhub₃]
      refine ⟨fun hl => hl.2, fun hl => ⟨fun hm => ?_, hl⟩⟩
      obtain ⟨e, he, heq, hg⟩ := hkeys _ hm
      have hsame := lookup_eq_some_iff.mpr he
      rw [heq, hl] at hsame
      exact hnot (Option.some.inj hsame ▸ hg)
  · exact fun key handle hl => .inl (hhub'' ▸ ((hsub key handle).mp hl).2)
  · intro v hv hinv₃ hgrown₃ _ hhub₃
    have hv' : Held fine i P s₀ v := hv.settle (by
      intro handle hm _ _
      obtain ⟨hg, hk⟩ := hgone handle hm
      refine ⟨.inl (hgrown₃.did _ hg), fun hin => ?_⟩
      rw [InMap, hhub₃] at hin
      exact ((hsub _ _).mp hin).1 hk)
    intro x hrely' hinv₄
    refine k _ (s.hub.eraseAll keys).pumps x (hv'.rely hrely') hinv₄
      ((hrely.grown.trans hgrown).trans (hgrown₃.trans hrely'.grown)) ?_ ?_
    · rw [hrely'.hub hv'.holder, hhub₃]
      rfl
    · intro key handle hl
      obtain ⟨hnot, hl'⟩ := (hsub key handle).mp hl
      refine ⟨hl', Bool.eq_true_of_not_eq_false fun hclosed => ?_⟩
      have he := lookup_eq_some_iff.mp hl'
      have hopen := hlive ⟨key, handle⟩ he hnot
      have hborn' : s.Born handle := hrely.born h.holder handle (hborn _ he).1
      rw [hrely.grown.closed handle hborn' hclosed] at hopen
      cases hopen

end Reap

end Odradek.Web
