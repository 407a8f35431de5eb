import Odradek.Web.HubPumps

/-!
The calls of a hub, owned and shared: what each leaves on record, whether it
returns what it was asked for or an error.
-/

namespace Odradek.Web

open Library HubWorld

variable {fine : Nat → HubOp → HubChoice → HubWorld → Bool} {i : Nat} {s s₀ t u v w : HubWorld}
  {P : HubEvent → Prop} {topic : String} {partition : Int} {partitions running : List Int}
  {position : Position} {filter : Filter}

def Served {α : Type} (requests : α → List Nat) (w : HubWorld) (r : Except HubError α) : Prop :=
  ∀ a, r = .ok a → ∀ request ∈ requests a,
    ∃ q : Request, w.requests[request]? = some q ∧ q.state = .served

theorem Served.grown {α : Type} {requests : α → List Nat} {r : Except HubError α}
    (h : Served requests s r) (hgrown : Grown fine s t) : Served requests t r := by
  intro a ha request hm
  obtain ⟨q, hq, hserved⟩ := h a ha request hm
  obtain ⟨q', hq', _, hs⟩ := hgrown.requests request q hq
  exact ⟨q', hq', hs hserved⟩

theorem Served.error {α : Type} {requests : α → List Nat} (e : HubError) :
    Served requests w (.error e) := nofun

abbrev ServedOne := Served fun sub : Subscription => [sub.request]

abbrev ServedAll := Served fun subs : List Subscription => subs.map (·.request)

theorem ServedOne.of_answered {handle : PumpHandle} {r : Except HubError Subscription}
    (h : Answered handle w r) : ServedOne w r := by
  intro sub hsub request hm
  rw [List.mem_singleton.mp hm]
  subst hsub
  exact h

theorem ServedAll.cons {sub : Subscription} {subs : List Subscription}
    (h : ServedOne w (.ok sub)) (h' : ServedAll w (.ok subs)) :
    ServedAll w (.ok (sub :: subs)) := by
  intro subs' heq request hm
  cases heq
  rcases List.mem_cons.mp hm with rfl | hm
  · exact h sub rfl sub.request List.mem_cons_self
  · exact h' subs rfl request hm

section Owned

theorem sat_subscribe {Q : Except HubError Subscription → HubWorld → Prop}
    (h : Held fine i P s₀ s) (hP : ∀ e : HubEvent, e.Basic (topic, partition) → P e)
    (hP' : ∀ handle, P (.registering handle))
    (k : ∀ r t, Held fine i P s₀ t → HubInv fine t → Grown fine s t → ServedOne t r → Q r t) :
    HubSat fine i (Hub.subscribe topic partition position filter).run Q s := by
  refine Discipline.Sat.tryBind (sat_acquire h hP fun r t ht hinv hst hok => ?_)
  cases r with
  | error e => exact k _ t ht hinv hst (.error e)
  | ok entry =>
  obtain ⟨handle, created⟩ := entry
  obtain ⟨hhanded, hcreated⟩ := hok handle created rfl
  refine sat_caught (sat_roundTrip hhanded.born fun r u hnoted hinv₁ hr => ?_)
  have hu : Held fine i P s₀ u := ht.plain hnoted (hP' handle) nofun
    (by rintro _ (hl | hl | hl) <;> cases hl)
  have hsu := hst.trans hnoted.grown
  have hhanded' := hhanded.grown hnoted.grown
  cases r with
  | ok sub =>
      intro v hrely hinv₂
      exact k _ v (hu.rely hrely) hinv₂ (hsu.trans hrely.grown)
        ((ServedOne.of_answered hr).grown hrely.grown)
  | error e =>
  obtain ⟨rfl, hclosed⟩ := hr
  dsimp only
  split
  next =>
      refine Discipline.Sat.tryBind (sat_respawn hu hP hhanded' hclosed ?_)
      intro r v hv hinv₂ huv hok'
      have hsv := hsu.trans huv
      cases r with
      | error e => exact k _ v hv hinv₂ hsv (.error e)
      | ok handle' =>
      have hhanded₂ := hok' handle' rfl
      refine sat_caught (sat_roundTrip hhanded₂.born fun r x hnoted' hinv₃ hr => ?_)
      have hx : Held fine i P s₀ x := hv.plain hnoted' (hP' handle') nofun
        (by rintro _ (hl | hl | hl) <;> cases hl)
      have hsx := hsv.trans hnoted'.grown
      cases r with
      | ok sub =>
          intro y hrely hinv₄
          exact k _ y (hx.rely hrely) hinv₄ (hsx.trans hrely.grown)
            ((ServedOne.of_answered hr).grown hrely.grown)
      | error e =>
          refine Discipline.Sat.liftBind (sat_forget hx (hP _ trivial)
            (hhanded₂.grown hnoted'.grown) hr.2 ?_)
          intro y hy hinv₄ hxy _ z hrely hinv₅
          exact k _ z (hy.rely hrely) hinv₅ (hsx.trans (hxy.trans hrely.grown)) (.error e)
  next =>
      split
      next hnew =>
          have hstart : Held fine i P u u := .start hu.holder hu.mapped
          refine Discipline.Sat.liftBind (sat_forget hstart (hP _ trivial) hhanded' hclosed ?_)
          intro v hv hinv₂ huv _
          refine Discipline.Sat.liftBind (sat_shutdown (huv.did _ hhanded'.born) ?_)
          intro x hnoted' hinv₃ _ y hrely hinv₄
          have hmine : .started handle ∈ v.mine i := by
            refine hv.mem ?_
            rw [hnoted.mine]
            exact List.mem_append_left _ (hcreated hnew)
          have hx : Held fine i P s₀ x := (hu.trans hv).noted hnoted' (hP _ trivial)
            (fun _ heq => .inl (HubEvent.told.inj heq ▸ hmine))
            (fun _ => id) (by rintro _ (hl | hl | hl) <;> cases hl)
          exact k _ y (hx.rely hrely) hinv₄
            (hsu.trans (huv.trans (hnoted'.grown.trans hrely.grown))) (.error _)
      next =>
          intro v hrely hinv₂
          exact k _ v (hu.rely hrely) hinv₂ (hsu.trans hrely.grown) (.error _)

theorem sat_subscribeEach {list : List Int}
    {Q : Except HubError (List Subscription) → HubWorld → Prop}
    (h : Held fine i P s₀ s)
    (hP : ∀ partition ∈ list, ∀ e : HubEvent, e.Basic (topic, partition) → P e)
    (hP' : ∀ handle, P (.registering handle)) {position : TopicPosition}
    (k : ∀ r t, Held fine i P s₀ t → HubInv fine t → Grown fine s t → ServedAll t r → Q r t) :
    HubSat fine i (Hub.subscribeEach topic position filter list).run Q s := by
  induction list generalizing s Q with
  | nil =>
      intro t hrely hinv
      refine k _ t (h.rely hrely) hinv hrely.grown fun subs heq request hm => ?_
      cases heq
      cases hm
  | cons first rest ih =>
      refine Discipline.Sat.tryBind (sat_subscribe h (hP first List.mem_cons_self) hP' ?_)
      intro r t ht hinv hst hserved
      cases r with
      | error e => exact k _ t ht hinv hst (.error e)
      | ok sub =>
      refine Discipline.Sat.tryBind (ih ht (fun p hp => hP p (List.mem_cons_of_mem _ hp)) ?_)
      intro r u hu hinv₁ htu hserved'
      cases r with
      | error e => exact k _ u hu hinv₁ (hst.trans htu) (.error e)
      | ok subs =>
          intro v hrely hinv₂
          exact k _ v (hu.rely hrely) hinv₂ (hst.trans (htu.trans hrely.grown))
            (ServedAll.cons (hserved.grown (htu.trans hrely.grown)) (hserved'.grown hrely.grown))

end Owned

section Release

/-- The partitions of a topic-level subscribe that were running before it. -/
theorem sat_runningPartitions {Q : List Int → HubWorld → Prop} (h : Held fine i P s₀ s)
    (hP : ∀ running, P (.before running))
    (k : ∀ running t, Held fine i P s₀ t → HubInv fine t → Grown fine s t →
      t.mine i = s.mine i ++ [.before running] →
      (∀ partition ∈ partitions, partition ∉ running → (topic, partition) ∉ t.hub.pumps) →
      Q running t) :
    HubSat fine i (Hub.runningPartitions topic partitions) Q s := by
  refine Discipline.Sat.bind (sat_read h fun t hrely ht hinv hhub => ?_)
  refine Discipline.Sat.bind (sat_note nofun (by rintro _ (hl | hl | hl) <;> cases hl) ?_)
  intro u hnoted hinv' v hrely' hinv''
  have hu : Held fine i P s₀ u := ht.plain hnoted (hP _) nofun
    (by rintro _ (hl | hl | hl) <;> cases hl)
  refine k _ v (hu.rely hrely') hinv'' ((hrely.grown.trans hnoted.grown).trans hrely'.grown) ?_ ?_
  · rw [hrely'.mine, hnoted.mine, hrely.mine]
  · intro p hp hnot hmem
    rw [hrely'.hub hu.holder, hnoted.hub ht.holder, hhub] at hmem
    exact hnot (List.mem_filter.mpr ⟨hp, decide_eq_true hmem⟩)

/-- One pump of a new partition goes: out of the map, told to stop, and on record. -/
theorem sat_release {key : PumpKey} {handle : PumpHandle} {rest : HubProgram Unit}
    {Q : Unit → HubWorld → Prop} (hholder : s.holder = some i) (hmapped : s.Mapped)
    (hinv : HubInv fine s) (hlookup : s.hub.pumps.lookup key = some handle)
    (hmine : .started handle ∈ s.mine i) (hP : P (.released handle)) (hP' : P (.told handle))
    (k : ∀ t, Held fine i P s t → HubInv fine t → Grown fine s t →
      t.hub = s.hub.removePump key → HubSat fine i rest Q t) :
    HubSat fine i (do
      perform (.write (s.hub.removePump key))
      perform (.shutdown handle)
      perform (.note (.released handle))
      rest) Q s := by
  obtain ⟨hkey, hborn, _⟩ := hinv.hub.keyed _ handle hlookup
  have hstart : Held fine i P s s := .start hholder hmapped
  refine Discipline.Sat.bind (sat_removePump hstart (Y := [handle]) ?_
    (fun _ hm => absurd hm List.not_mem_nil) ?_)
  · intro handle' hkey' hin
    rw [InMap, hkey', hlookup] at hin
    exact List.mem_singleton.mpr (Option.some.inj hin).symm
  intro t ht hinv₁ hst hmine' hhub'
  have hborn' := hst.did _ hborn
  refine Discipline.Sat.bind (sat_shutdown hborn' fun u hnoted hinv₂ hstop => ?_)
  have hu : HeldBut fine i P [handle] s u := ht.noted hnoted hP'
    (fun handle' heq => .inl (by cases heq; rw [hmine']; exact hmine))
    (fun _ => id) (by rintro _ (hl | hl | hl) <;> cases hl)
  refine Discipline.Sat.bind (sat_note (fun _ heq => by cases heq) ?_ ?_)
  · intro handle' hl
    rcases hl with hl | hl | hl <;> cases hl
    exact ⟨hu.holder, hnoted.grown.did _ hborn', hstop, fun heq => by cases heq⟩
  intro v hnoted' hinv₃
  have hv : HeldBut fine i P [handle] s v := hu.noted hnoted' hP (fun _ heq => by cases heq)
    (fun _ => id) (by
      rintro handle' (hl | hl | hl) <;> cases hl
      exact List.mem_cons_self)
  have hhub : v.hub = s.hub.removePump key := by
    rw [hnoted'.hub hu.holder, hnoted.hub ht.holder, hhub']
  refine k v ?_ hinv₃ (hst.trans (hnoted.grown.trans hnoted'.grown)) hhub
  refine hv.settle fun handle' hm _ _ => ?_
  rw [List.mem_singleton.mp hm]
  exact ⟨hnoted'.left_of_leaves (.inr (.inl rfl)), not_inMap_of_removePump hhub hkey⟩

/-- Out go the pumps of the partitions that were not running before. -/
theorem sat_releaseNew {list : List Int} {Q : Unit → HubWorld → Prop} (h : Held fine i P s₀ s)
    (hinv : HubInv fine s)
    (hP : ∀ handle, handle.partition ∉ running → P (.released handle))
    (hP' : ∀ handle, P (.told handle))
    (hnew : ∀ partition ∈ list, partition ∉ running → ∀ handle,
      s.hub.pumps.lookup (topic, partition) = some handle → .started handle ∈ s.mine i)
    (k : ∀ t, Held fine i P s₀ t → HubInv fine t → Grown fine s t →
      (∀ key handle, t.hub.pumps.lookup key = some handle →
        s.hub.pumps.lookup key = some handle) →
      (∀ partition ∈ list, partition ∉ running → (topic, partition) ∉ t.hub.pumps) → Q () t) :
    HubSat fine i (Hub.releaseNew topic running list) Q s := by
  induction list generalizing s Q with
  | nil =>
      intro t hrely hinv'
      refine k t (h.rely hrely) hinv' hrely.grown (fun key handle hlookup => ?_)
        fun _ hm => absurd hm List.not_mem_nil
      rwa [← hrely.hub h.holder]
  | cons first rest ih =>
      have hrest : ∀ p ∈ rest, p ∉ running → ∀ handle,
          s.hub.pumps.lookup (topic, p) = some handle → .started handle ∈ s.mine i :=
        fun p hp => hnew p (List.mem_cons_of_mem _ hp)
      unfold Hub.releaseNew
      split
      next hin =>
          refine ih h hinv hrest ?_
          intro t ht hinv' hgrown hsub hout
          refine k t ht hinv' hgrown hsub fun p hp hnot => ?_
          rcases List.mem_cons.mp hp with rfl | hp
          · exact absurd hin hnot
          · exact hout p hp hnot
      next hout =>
          refine Discipline.Sat.bind (sat_read h fun t hrely ht hinv' hhub => ?_)
          have hrest' : ∀ u, Held fine i P t u →
              (∀ key handle, u.hub.pumps.lookup key = some handle →
                t.hub.pumps.lookup key = some handle) → ∀ p ∈ rest, p ∉ running → ∀ handle,
              u.hub.pumps.lookup (topic, p) = some handle → .started handle ∈ u.mine i := by
            intro u hu hsub p hp hnot handle hlookup
            refine hu.mem ?_
            rw [hrely.mine]
            exact hrest p hp hnot handle (hhub ▸ hsub _ handle hlookup)
          split
          next handle hlookup =>
              have hmine : .started handle ∈ t.mine i := by
                rw [hrely.mine]
                exact hnew first List.mem_cons_self hout handle hlookup
              rw [← hhub] at hlookup ⊢
              have hkey := (hinv'.hub.keyed _ handle hlookup).1
              have hpartition : handle.partition = first := congrArg Prod.snd hkey
              refine sat_release ht.holder ht.mapped hinv' hlookup hmine
                (hP handle (hpartition ▸ hout)) (hP' handle) fun x hx' hinv₁ htx hhub_x => ?_
              have hsub : ∀ key handle, x.hub.pumps.lookup key = some handle →
                  key ≠ (topic, first) ∧ t.hub.pumps.lookup key = some handle := by
                intro key handle' hl
                rw [hhub_x] at hl
                exact lookup_erase_cases hl
              refine ih (ht.trans hx') hinv₁
                (hrest' x hx' fun key handle' hl => (hsub key handle' hl).2) ?_
              intro y hy hinv₂ hxy hsub' hout'
              refine k y hy hinv₂ (hrely.grown.trans (htx.trans hxy)) ?_ ?_
              · intro key handle' hl
                exact hhub ▸ (hsub key handle' (hsub' key handle' hl)).2
              · intro p hp hnot hmem
                rcases List.mem_cons.mp hp with rfl | hp
                · obtain ⟨handle', hl⟩ := Option.isSome_iff_exists.mp
                    (AList.lookup_isSome.mpr hmem)
                  exact (hsub _ handle' (hsub' _ handle' hl)).1 rfl
                · exact hout' p hp hnot hmem
          next hnone =>
              have hstart : Held fine i P t t := .start ht.holder ht.mapped
              refine ih ht hinv' (hrest' t hstart fun _ _ hl => hl) ?_
              intro u hu hinv₁ htu hsub hout'
              refine k u hu hinv₁ (hrely.grown.trans htu)
                (fun key handle hl => hhub ▸ hsub key handle hl) fun p hp hnot hmem => ?_
              rcases List.mem_cons.mp hp with rfl | hp
              · obtain ⟨handle, hl⟩ := Option.isSome_iff_exists.mp
                  (AList.lookup_isSome.mpr hmem)
                have hl' := hsub _ handle hl
                rw [hhub, hnone] at hl'
                cases hl'
              · exact hout' p hp hnot hmem

end Release

end Odradek.Web
