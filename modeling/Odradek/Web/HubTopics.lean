import Odradek.Web.HubCalls

/-!
The topic-level subscribe of `Hub`, what it has undone when it fails, and the
shutdown.
-/

namespace Odradek.Web

open Library HubWorld

variable {fine : Nat → HubOp → HubChoice → HubWorld → Bool} {i : Nat} {s s₀ t u v w b : HubWorld}
  {P : HubEvent → Prop} {topic : String} {partition : Int} {partitions running : List Int}
  {position : TopicPosition} {filter : Filter} {owned : Bool}

section Rollback

/-- Before any pump is looked at. -/
def HubEvent.Asking : HubEvent → Prop
  | .approved _ | .listed _ _ => True
  | _ => False

/-- What the partitions of a topic put on record one by one. -/
def HubEvent.Spread (registers : Bool) (topic : String) (partitions : List Int) : HubEvent → Prop
  | .approved _ | .listed _ _ | .gone _ | .told _ => True
  | .started handle => handle.topic = topic ∧ handle.partition ∈ partitions
  | .registering _ => registers = true
  | .before _ | .released _ | .drained _ => False

/-- And what taking them back adds to it. -/
def HubEvent.Undone (registers : Bool) (topic : String) (partitions running : List Int)
    (event : HubEvent) : Prop :=
  event.Spread registers topic partitions ∨
    ∃ handle, event = .released handle ∧ handle.partition ∉ running

theorem HubEvent.Basic.spread {registers : Bool} {event : HubEvent}
    (h : event.Basic (topic, partition)) (hmem : partition ∈ partitions) :
    event.Spread registers topic partitions := by
  cases event <;> simp only [HubEvent.Basic] at h <;> simp only [HubEvent.Spread]
  case started handle =>
      have hpartition : handle.partition = partition := congrArg Prod.snd h
      exact ⟨congrArg Prod.fst h, hpartition ▸ hmem⟩

/-- A failing call takes back the pumps of partitions that were not running
before it; a shared one, as long as it has begun no registration. -/
def Covered (i : Nat) (owned : Bool) (w : HubWorld) (handle : PumpHandle) : Prop :=
  (∃ running, .before running ∈ w.mine i ∧ handle.partition ∉ running) ∧
    (owned = true ∨ ∀ handle', .registering handle' ∉ w.mine i)

/-- What call `i`, which has failed, left behind. -/
structure RolledBack (i : Nat) (owned : Bool) (w : HubWorld) : Prop where
  left : ∀ handle, .started handle ∈ w.mine i → Covered i owned w handle → w.Left handle
  released : ∀ handle, .released handle ∈ w.mine i → Covered i owned w handle
  drained : ∀ handle, .drained handle ∉ w.mine i
  told : ∀ handle, .told handle ∈ w.mine i → .started handle ∈ w.mine i

/-- Nothing has been started yet. -/
theorem RolledBack.of_asking (h : ∀ e ∈ w.mine i, e.Asking) : RolledBack i owned w :=
  { left := fun handle hm => (h (.started handle) hm).elim
    released := fun handle hm => (h (.released handle) hm).elim
    drained := fun handle hm => h (.drained handle) hm
    told := fun handle hm => (h (.told handle) hm).elim }

/-- The entries before the partitions are gone through. -/
def HubEvent.Opening (running : List Int) : HubEvent → Prop
  | .approved _ | .listed _ _ => True
  | .before running' => running' = running
  | _ => False

/-- A map without the pumps of the partitions that were not running. -/
theorem RolledBack.of_release (hmine : ∀ e ∈ b.mine i, e.Opening running)
    (h : Trail fine i (HubEvent.Undone owned topic partitions running) b t) (hmapped : t.Mapped)
    (hbefore : .before running ∈ b.mine i)
    (hout : ∀ partition ∈ partitions, partition ∉ running → (topic, partition) ∉ t.hub.pumps) :
    RolledBack i owned t := by
  have hnew : ∀ e ∈ t.mine i, e.Opening running ∨ e.Undone owned topic partitions running :=
    fun e he => (h.new he).imp_left (hmine e)
  refine ⟨?_, ?_, ?_, ?_⟩
  · rintro handle hm ⟨⟨running', hbefore', hnot⟩, _⟩
    have hrunning : running' = running := by
      rcases hnew _ hbefore' with heq | hspread | ⟨_, heq, _⟩
      · exact heq
      · exact hspread.elim
      · cases heq
    obtain ⟨htopic, hpartition⟩ : handle.topic = topic ∧ handle.partition ∈ partitions := by
      rcases hnew _ hm with hopening | hspread | ⟨_, heq, _⟩
      · exact hopening.elim
      · exact hspread
      · cases heq
    by_contra hleft
    have hin := (hmapped handle (did_of_mem_mine hm) List.not_mem_nil).mpr hleft
    refine hout handle.partition hpartition (hrunning ▸ hnot) ?_
    rw [← htopic]
    exact mem_of_lookup hin
  · intro handle hm
    rcases hnew _ hm with hopening | hspread | ⟨handle', heq, hnot⟩
    · exact hopening.elim
    · exact hspread.elim
    · cases heq
      refine ⟨⟨running, h.mem hbefore, hnot⟩, ?_⟩
      cases owned with
      | true => exact .inl rfl
      | false =>
          refine .inr fun handle' hm' => ?_
          rcases hnew _ hm' with hopening | hspread | ⟨_, heq, _⟩
          · exact hopening.elim
          · cases hspread
          · cases heq
  · intro handle hm
    rcases hnew _ hm with hopening | hspread | ⟨_, heq, _⟩
    · exact hopening.elim
    · exact hspread.elim
    · cases heq
  · intro handle hm
    rcases h.told handle hm with hold | hstarted | hspread | ⟨_, heq, _⟩
    · exact (hmine _ hold).elim
    · exact hstarted
    · exact hspread.elim
    · cases heq

end Rollback

section Owned

theorem sat_subscribeTopic {Q : Except HubError TopicSubscription → HubWorld → Prop}
    (hholder : s.holder = some i) (hmapped : s.Mapped) (hmine : s.mine i = [])
    (k : ∀ r t, t.holder = some i → t.Mapped → HubInv fine t → Grown fine s t →
      Served (fun sub => sub.merged.map (·.request)) t r →
      (∀ e, r = .error e → RolledBack i true t) → Q r t) :
    HubSat fine i (Hub.subscribeTopic topic position filter).run Q s := by
  have hstart : Held fine i HubEvent.Asking s s := .start hholder hmapped
  have hasking : ∀ {t}, Held fine i HubEvent.Asking s t → ∀ e ∈ t.mine i, e.Asking := by
    intro t ht e he
    refine (ht.new he).resolve_left fun hm => ?_
    rw [hmine] at hm
    cases hm
  refine Discipline.Sat.tryBind (sat_knownPartitions hstart trivial (fun _ => trivial) ?_)
  intro r t ht hinv hst _ _
  cases r with
  | error e =>
      exact k _ t ht.holder ht.mapped hinv hst (.error e) fun _ _ => .of_asking (hasking ht)
  | ok partitions =>
  have htop : Held fine i (fun _ => True) t t := .start ht.holder ht.mapped
  refine Discipline.Sat.liftBind (sat_runningPartitions htop (fun _ => trivial) ?_)
  intro running b hb hinv₁ htb hmine_b hnone
  have hopening : ∀ e ∈ b.mine i, e.Opening running := by
    intro e he
    rw [hmine_b] at he
    rcases List.mem_append.mp he with he | he
    · have hfirst := hasking ht e he
      cases e <;> trivial
    · rw [List.mem_singleton.mp he]
      rfl
  have hbefore : .before running ∈ b.mine i := by
    rw [hmine_b]
    exact List.mem_append_right _ List.mem_cons_self
  have hstart' : Held fine i (HubEvent.Undone true topic partitions running) b b :=
    .start hb.holder hb.mapped
  refine sat_caught (sat_subscribeEach hstart'
    (fun p hp e he => .inl (he.spread hp)) (fun _ => .inl rfl) ?_)
  intro r u hu hinv₂ hbu hserved
  have hsu := hst.trans (htb.trans hbu)
  cases r with
  | ok subs =>
      intro v hrely hinv₃
      have hv := hu.rely hrely
      refine k _ v hv.holder hv.mapped hinv₃ (hsu.trans hrely.grown) ?_ nofun
      intro sub heq request hm
      cases heq
      exact hserved.grown hrely.grown subs rfl request hm
  | error e =>
      refine Discipline.Sat.liftBind (sat_releaseNew hu hinv₂
        (fun handle hnot => .inr ⟨handle, rfl, hnot⟩) (fun _ => .inl trivial) ?_ ?_)
      · intro p hp hnot handle hlookup
        refine (hu.entries _ handle hlookup).resolve_left fun hold => ?_
        exact hnone p hp hnot (mem_of_lookup hold)
      · intro v hv hinv₃ huv _ hout x hrely hinv₄
        have hx := hv.rely hrely
        refine k _ x hx.holder hx.mapped hinv₄ (hsu.trans (huv.trans hrely.grown)) (.error e)
          fun _ _ => .of_release hopening hx.toTrail hx.mapped hbefore fun p hp hnot => ?_
        rw [hrely.hub hv.holder]
        exact hout p hp hnot

end Owned

section Shutdown

/-- Every pump of a drained map is told, and then on record as drained. -/
theorem sat_tellAll {entries : List (Sigma fun _ : PumpKey => PumpHandle)}
    {Q : Unit → HubWorld → Prop} (h : HeldBut fine i P (entries.map (·.2)) s₀ s)
    (hP : ∀ handle, P (.told handle)) (hP' : ∀ handle, P (.drained handle))
    (hborn : ∀ e ∈ entries, s.Born e.2) (hempty : s.hub.pumps = ∅)
    (k : ∀ t, Held fine i P s₀ t → HubInv fine t → Grown fine s t → t.hub = s.hub → Q () t) :
    HubSat fine i (Hub.tellAll entries) Q s := by
  induction entries generalizing s Q with
  | nil =>
      intro t hrely hinv
      exact k t (h.rely hrely) hinv hrely.grown (hrely.hub h.holder)
  | cons entry rest ih =>
      have hentry := hborn entry List.mem_cons_self
      refine Discipline.Sat.bind (sat_shutdown hentry fun t hnoted hinv hstop => ?_)
      have ht := h.noted hnoted (hP _) (fun _ _ => .inr (hP' _)) (fun _ => id)
        (by rintro _ (hl | hl | hl) <;> cases hl)
      refine Discipline.Sat.bind (sat_note nofun ?_ ?_)
      · intro handle hl
        rcases hl with hl | hl | hl <;> cases hl
        exact ⟨ht.holder, hnoted.grown.did _ hentry, hstop, nofun⟩
      · intro u hnoted' hinv'
        have hhub : u.hub = s.hub := (hnoted'.hub ht.holder).trans (hnoted.hub h.holder)
        have hu : HeldBut fine i P ((entry :: rest).map (·.2)) s₀ u :=
          ht.noted hnoted' (hP' _) nofun (fun _ => id) (by
            rintro handle (hl | hl | hl) <;> cases hl
            exact List.mem_cons_self)
        have hu' : HeldBut fine i P (rest.map (·.2)) s₀ u := hu.settle fun handle hm _ hnot => by
          rw [(List.mem_cons.mp hm).resolve_right hnot]
          refine ⟨hnoted'.left_of_leaves (.inr (.inr rfl)), fun hin => ?_⟩
          rw [InMap, hhub, hempty] at hin
          cases hin
        have hgrown := hnoted.grown.trans hnoted'.grown
        refine ih hu' (fun e he => hgrown.did _ (hborn e (List.mem_cons_of_mem _ he)))
          (hhub ▸ hempty) ?_
        intro v hv hinv'' huv hhub'
        exact k v hv hinv'' (hgrown.trans huv) (hhub'.trans hhub)

theorem HubOk.shutDown (h : HubOk fine w) :
    HubOk fine { w with hub := { w.hub with shutDown := true, pumps := ∅ } } :=
  ⟨fun _ _ hlookup => (by cases hlookup), h.cached, fun _ => Nat.zero_le _, fun _ _ => rfl⟩

/-- Every pump has been told to stop before the map is let go. -/
theorem sat_hubShutdown {Q : Unit → HubWorld → Prop} (hholder : s.holder = some i)
    (hmapped : s.Mapped)
    (k : ∀ t, t.holder = some i → t.Mapped → HubInv fine t → Grown fine s t →
      t.hub.shutDown = true → (∀ handle, t.Born handle → t.Stopping handle.channel) → Q () t) :
    HubSat fine i Hub.shutdown Q s := by
  have hstart : Held fine i (fun _ => True) s s := .start hholder hmapped
  refine Discipline.Sat.bind (sat_read hstart fun t hrely ht hinv hhub => ?_)
  refine Discipline.Sat.bind (sat_write ht (by rw [hhub]) (fun _ => rfl) ?_ ?_ ?_ ?_
    (Y := s.hub.pumps.entries.map (·.2)))
  · intro u _ hinv' hhub'
    have hok := hinv'.hub.shutDown
    rw [hhub', hhub] at hok
    exact hok
  · intro u hu _ hhub' handle hborn hnot
    refine ⟨fun hin => (by cases hin), fun hleft => ?_⟩
    have hin := (hu.mapped handle hborn List.not_mem_nil).mpr hleft
    rw [InMap, hhub', hhub] at hin
    exact absurd (List.mem_map.mpr ⟨_, lookup_eq_some_iff.mp hin, rfl⟩) hnot
  · exact fun _ _ hlookup => (by cases hlookup)
  · intro u hu hinv' htu _ hhub'
    have hborn : ∀ e ∈ s.hub.pumps.entries, u.Born e.2 := by
      intro e he
      exact htu.did _ (hinv.hub.keyed e.1 e.2 (hhub ▸ lookup_eq_some_iff.mpr he)).2.1
    refine Discipline.Sat.bind (sat_tellAll hu (fun _ => trivial) (fun _ => trivial) hborn
      (by rw [hhub']) ?_)
    intro v hv hinv₁ huv hhub₁
    refine Discipline.Sat.bind (sat_read hv fun x hrely' hx hinv₂ hhub₂ => ?_)
    have hhub₃ : x.hub = { s.hub with shutDown := true, pumps := ∅ } := by
      rw [hhub₂, hhub₁, hhub']
    rw [← hhub₂]
    refine sat_write hx rfl id ?_ ?_ (fun _ _ hlookup => .inl hlookup) ?_ (Y := [])
    · intro y _ hinv₃ hhub₄
      have hok := hinv₃.hub.forgetTopics
      rw [hhub₄] at hok
      exact hok
    · intro y hy _ hhub₄ handle hborn hnot
      rw [← hhub₄]
      exact hy.mapped handle hborn hnot
    · intro y hy hinv₃ hxy _ hhub₄
      refine k y hy.holder hy.mapped hinv₃
        ((hrely.grown.trans htu).trans (huv.trans (hrely'.grown.trans hxy)))
        (by rw [hhub₄, hhub₃]) fun handle hborn => ?_
      have hleft : y.Left handle := by
        by_contra hnot
        have hin := (hy.mapped handle hborn List.not_mem_nil).mpr hnot
        rw [InMap, hhub₄, hhub₃] at hin
        cases hin
      exact (hinv₃.pumps.left handle hleft).2

end Shutdown

end Odradek.Web
