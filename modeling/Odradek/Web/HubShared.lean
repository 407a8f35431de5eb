import Odradek.Web.HubTopics

/-!
The subscribes of `SharedHub`: the lock over the map only, the round trips
without it.
-/

namespace Odradek.Web

open Library HubWorld

variable {fine : Nat → HubOp → HubChoice → HubWorld → Bool} {i : Nat} {s s₀ t u v w b : HubWorld}
  {P : HubEvent → Prop} {topic : String} {partition : Int} {partitions running : List Int}
  {filter : Filter} {handle stale : PumpHandle}

section Onward

/-- Later in call `i`: nothing is undone, and what it put on record stays. -/
structure Onward (fine : Nat → HubOp → HubChoice → HubWorld → Bool) (i : Nat) (s t : HubWorld) :
    Prop where
  grown : Grown fine s t
  keeps : ∀ e ∈ s.mine i, e ∈ t.mine i

theorem Onward.trans (h : Onward fine i s t) (h' : Onward fine i t u) : Onward fine i s u :=
  ⟨h.grown.trans h'.grown, fun e he => h'.keeps e (h.keeps e he)⟩

theorem Onward.of_mine (hgrown : Grown fine s t) (hmine : t.mine i = s.mine i) :
    Onward fine i s t :=
  ⟨hgrown, fun e he => by rwa [hmine]⟩

theorem Onward.of_rely (h : Rely fine i s t) : Onward fine i s t := .of_mine h.grown h.mine

theorem Onward.of_trail (h : Trail fine i P s t) : Onward fine i s t :=
  ⟨h.grown, fun _ he => h.mem he⟩

theorem Onward.of_noted {event : HubEvent} (h : Noted fine i event s t) : Onward fine i s t :=
  ⟨h.grown, fun e he => by rw [h.mine]; exact List.mem_append_left _ he⟩

end Onward

section Roam

/-- The trail of a call that does not hold the lock. -/
structure Roam (fine : Nat → HubOp → HubChoice → HubWorld → Bool) (i : Nat) (P : HubEvent → Prop)
    (s w : HubWorld) : Prop extends Trail fine i P s w where
  free : w.holder ≠ some i

theorem Roam.rely (h : Roam fine i P s t) (hrely : Rely fine i t u) : Roam fine i P s u :=
  ⟨h.toTrail.rely hrely, fun hholder => h.free (hrely.holder.mp hholder)⟩

theorem Roam.noted {event : HubEvent} (h : Roam fine i P s t) (hnoted : Noted fine i event t u)
    (hevent : P event)
    (htold : ∀ handle, event = .told handle → .started handle ∈ t.mine i ∨ P (.drained handle)) :
    Roam fine i P s u :=
  ⟨h.toTrail.noted hnoted hevent htold, fun hholder => h.free (hnoted.holder.mp hholder)⟩

end Roam

section Subscribe

/-- A locked method of a call that has left a trail. -/
theorem sat_lockedTry {α : Type} {x : HubTry α} {Q : Except HubError α → HubWorld → Prop}
    (h : Roam fine i P s₀ s)
    (hbody : ∀ t, Held fine i P t t → Onward fine i s t → HubInv fine t →
      HubSat fine i x.run (fun r u => Held fine i P t u ∧ ∀ v, Roam fine i P s₀ v →
        Onward fine i s v → Onward fine i u v → HubInv fine v → Q r v) t) :
    HubSat fine i (lockedTry x).run Q s := by
  refine sat_locked fun t hholder hmapped hgrown hmine hinv => ?_
  have hst := Onward.of_mine hgrown hmine
  refine (hbody t (.start hholder hmapped) hst hinv).mono ?_
  rintro r u _ ⟨hu, hrest⟩
  refine ⟨hu.holder, hu.mapped, fun v hgrown' hmine' hfree hinv' => ?_⟩
  have huv := Onward.of_mine hgrown' hmine'
  exact hrest v ⟨((h.of_mine hgrown hmine).trans hu.toTrail).of_mine hgrown' hmine', hfree⟩
    (hst.trans ((Onward.of_trail hu.toTrail).trans huv)) huv hinv'

theorem sat_lockedForget {Q : Unit → HubWorld → Prop} (h : Roam fine i P s₀ s)
    (hP : P (.gone stale)) (hstale : Handed (topic, partition) s stale)
    (hclosed : s.isOpen stale.channel = false)
    (k : ∀ t, Roam fine i P s₀ t → HubInv fine t → Onward fine i s t → Q () t) :
    HubSat fine i (locked (Hub.forget topic partition stale)) Q s := by
  refine sat_locked fun t hholder hmapped hgrown hmine hinv => ?_
  have ht : Held fine i P t t := .start hholder hmapped
  refine sat_forget ht hP (hstale.grown hgrown) (hgrown.closed stale hstale.born hclosed) ?_
  intro u hu hinv' htu _
  refine ⟨hu.holder, hu.mapped, fun v huv hmine' hfree hinv'' => k v ?_ hinv'' ?_⟩
  · exact ⟨((h.of_mine hgrown hmine).trans hu.toTrail).of_mine huv hmine', hfree⟩
  · exact (Onward.of_mine hgrown hmine).trans
      ((Onward.of_trail hu.toTrail).trans (.of_mine huv hmine'))

/-- A pump this call started never answered: its entry goes, and it is told to stop. -/
theorem sat_abandon {α : Type} {rest : HubTry α} {Q : Except HubError α → HubWorld → Prop}
    (h : Roam fine i P s₀ s) (hP : ∀ e : HubEvent, e.Basic (topic, partition) → P e)
    (hhanded : Handed (topic, partition) s handle) (hclosed : s.isOpen handle.channel = false)
    (hmine : .started handle ∈ s.mine i)
    (k : ∀ t, Roam fine i P s₀ t → HubInv fine t → Onward fine i s t →
      HubSat fine i rest.run Q t) :
    HubSat fine i (ExceptT.run do
      (locked (Hub.forget topic partition handle) : HubProgram Unit)
      perform (.shutdown handle)
      rest) Q s := by
  refine Discipline.Sat.liftBind (sat_lockedForget h (hP _ trivial) hhanded hclosed ?_)
  intro t ht _ hst
  refine Discipline.Sat.liftBind (sat_shutdown (hst.grown.did _ hhanded.born) ?_)
  intro u hnoted hinv _
  exact k u (ht.noted hnoted (hP _ trivial)
    fun _ heq => .inl (HubEvent.told.inj heq ▸ hst.keeps _ hmine)) hinv
    (hst.trans (.of_noted hnoted))

theorem sat_sharedSubscribe {position : Position}
    {Q : Except HubError Subscription → HubWorld → Prop} (h : Roam fine i P s₀ s)
    (hP : ∀ e : HubEvent, e.Basic (topic, partition) → P e)
    (hP' : ∀ handle, P (.registering handle))
    (k : ∀ r t, Roam fine i P s₀ t → HubInv fine t → Onward fine i s t → ServedOne t r → Q r t) :
    HubSat fine i (SharedHub.subscribe topic partition position filter).run Q s := by
  refine Discipline.Sat.tryBind (sat_lockedTry h fun t ht hst hinv => ?_)
  refine sat_acquire ht hP fun r u hu _ _ hok => ⟨hu, fun v hv hsv huv hinv₂ => ?_⟩
  cases r with
  | error e => exact k _ v hv hinv₂ hsv (.error e)
  | ok entry =>
  obtain ⟨handle, created⟩ := entry
  obtain ⟨hhanded, hcreated⟩ := hok handle created rfl
  have hhanded₁ := hhanded.grown huv.grown
  refine sat_caught (sat_roundTrip hhanded₁.born fun r x hnoted hinv₃ hr => ?_)
  have hx : Roam fine i P s₀ x := hv.noted hnoted (hP' handle) nofun
  have hsx := hsv.trans (.of_noted hnoted)
  have hhanded₂ := hhanded₁.grown hnoted.grown
  cases r with
  | ok sub =>
      intro y hrely hinv₄
      exact k _ y (hx.rely hrely) hinv₄ (hsx.trans (.of_rely hrely))
        ((ServedOne.of_answered hr).grown hrely.grown)
  | error e =>
  obtain ⟨rfl, hclosed⟩ := hr
  dsimp only
  split
  next =>
      refine Discipline.Sat.tryBind (sat_lockedTry hx fun y hy hxy hinv₄ => ?_)
      refine sat_respawn hy hP (hhanded₂.grown hxy.grown)
        (hxy.grown.closed handle hhanded₂.born hclosed) fun r z hz _ _ hok' => ⟨hz, ?_⟩
      intro a ha hxa hza hinv₆
      have hsa := hsx.trans hxa
      cases r with
      | error e => exact k _ a ha hinv₆ hsa (.error e)
      | ok handle' =>
      have hhanded₃ := (hok' handle' rfl).grown hza.grown
      refine sat_caught (sat_roundTrip hhanded₃.born fun r c hnoted' hinv₇ hr => ?_)
      have hc : Roam fine i P s₀ c := ha.noted hnoted' (hP' handle') nofun
      have hsc := hsa.trans (.of_noted hnoted')
      cases r with
      | ok sub =>
          intro d hrely hinv₈
          exact k _ d (hc.rely hrely) hinv₈ (hsc.trans (.of_rely hrely))
            ((ServedOne.of_answered hr).grown hrely.grown)
      | error e =>
          refine Discipline.Sat.liftBind (sat_lockedForget hc (hP _ trivial)
            (hhanded₃.grown hnoted'.grown) hr.2 ?_)
          intro d hd hinv₈ hcd f hrely hinv₉
          exact k _ f (hd.rely hrely) hinv₉ (hsc.trans (hcd.trans (.of_rely hrely))) (.error e)
  next =>
      split
      next hnew =>
          have hmine : .started handle ∈ x.mine i :=
            (Onward.of_noted hnoted).keeps _ (huv.keeps _ (hcreated hnew))
          refine sat_abandon hx hP hhanded₂ hclosed hmine fun y hy _ hxy z hrely hinv₅ => ?_
          exact k _ z (hy.rely hrely) hinv₅ (hsx.trans (hxy.trans (.of_rely hrely))) (.error _)
      next =>
          intro y hrely hinv₄
          exact k _ y (hx.rely hrely) hinv₄ (hsx.trans (.of_rely hrely)) (.error _)

end Subscribe

section Topic

/-- What the locked phase hands over for one partition. -/
def EntryOk (topic : String) (partitions : List Int) (i : Nat) (w : HubWorld)
    (x : (PumpHandle × Bool) × Int) : Prop :=
  Handed (topic, x.2) w x.1.1 ∧ (x.1.2 = true → .started x.1.1 ∈ w.mine i) ∧ x.2 ∈ partitions

theorem EntryOk.onward {x : (PumpHandle × Bool) × Int} (h : EntryOk topic partitions i s x)
    (hst : Onward fine i s t) : EntryOk topic partitions i t x :=
  ⟨h.1.grown hst.grown, fun hc => hst.keeps _ (h.2.1 hc), h.2.2⟩

/-- The locked phase hands out a live pump for every partition, or fails. -/
theorem sat_acquireEach {list : List Int} {Q : Except HubError (List (PumpHandle × Bool)) →
      HubWorld → Prop} (h : Held fine i P s₀ s) (hlist : ∀ p ∈ list, p ∈ partitions)
    (hP : ∀ p ∈ list, ∀ e : HubEvent, e.Basic (topic, p) → P e)
    (k : ∀ r t, Held fine i P s₀ t → HubInv fine t → Onward fine i s t →
      (∀ entries, r = .ok entries → ∀ x ∈ entries.zip list, EntryOk topic partitions i t x) →
      Q r t) :
    HubSat fine i (SharedHub.acquireEach topic list).run Q s := by
  induction list generalizing s Q with
  | nil =>
      intro t hrely hinv
      refine k _ t (h.rely hrely) hinv (.of_rely hrely) fun entries heq x hx => ?_
      cases heq
      cases hx
  | cons first rest ih =>
      have hstart : Held fine i P s s := .start h.holder h.mapped
      refine Discipline.Sat.tryBind (sat_acquire hstart (hP first List.mem_cons_self) ?_)
      intro r t ht hinv _ hok
      have hst := Onward.of_trail ht.toTrail
      have hheld := h.trans ht
      cases r with
      | error e => exact k _ t hheld hinv hst nofun
      | ok entry =>
      obtain ⟨handle, created⟩ := entry
      have hentry : EntryOk topic partitions i t ((handle, created), first) :=
        ⟨(hok handle created rfl).1, (hok handle created rfl).2, hlist first List.mem_cons_self⟩
      refine Discipline.Sat.tryBind (ih hheld (fun p hp => hlist p (List.mem_cons_of_mem _ hp))
        (fun p hp => hP p (List.mem_cons_of_mem _ hp)) ?_)
      intro r u hu hinv₁ htu hok'
      cases r with
      | error e => exact k _ u hu hinv₁ (hst.trans htu) nofun
      | ok entries =>
          intro v hrely hinv₂
          have huv := Onward.of_rely hrely
          refine k _ v (hu.rely hrely) hinv₂ (hst.trans (htu.trans huv)) fun all heq x hx => ?_
          cases heq
          rcases List.mem_cons.mp hx with rfl | hx
          · exact hentry.onward (htu.trans huv)
          · exact (hok' entries rfl x hx).onward huv

/-- The locked phase: the pumps of every partition, or none that is new. -/
theorem sat_acquireAll {Q : Except HubError (List (PumpHandle × Bool)) → HubWorld → Prop}
    (hholder : s.holder = some i) (hmapped : s.Mapped) (hmine : ∀ e ∈ s.mine i, e.Asking)
    (k : ∀ r t, t.holder = some i → t.Mapped → HubInv fine t → Onward fine i s t →
      (∀ e, r = .error e → RolledBack i false t) →
      (∀ entries, r = .ok entries →
        (∀ x ∈ entries.zip partitions, EntryOk topic partitions i t x) ∧
        ∃ b running, Trail fine i (HubEvent.Spread false topic partitions) b t ∧
          ∀ e ∈ b.mine i, e.Opening running) → Q r t) :
    HubSat fine i (SharedHub.acquireAll topic partitions).run Q s := by
  have htop : Held fine i (fun _ => True) s s := .start hholder hmapped
  refine Discipline.Sat.liftBind (sat_runningPartitions htop (fun _ => trivial) ?_)
  intro running b hb hinv hsb hmine_b hnone
  have honward : Onward fine i s b := .of_trail hb.toTrail
  have hopening : ∀ e ∈ b.mine i, e.Opening running := by
    intro e he
    rw [hmine_b] at he
    rcases List.mem_append.mp he with he | he
    · have hfirst := hmine e he
      cases e <;> trivial
    · rw [List.mem_singleton.mp he]
      rfl
  have hbefore : .before running ∈ b.mine i := by
    rw [hmine_b]
    exact List.mem_append_right _ List.mem_cons_self
  have hstart : Held fine i (HubEvent.Spread false topic partitions) b b :=
    .start hb.holder hb.mapped
  refine sat_caught (sat_acquireEach hstart (fun _ hp => hp)
    (fun p hp e he => he.spread hp) ?_)
  intro r u hu hinv₁ hbu hok
  cases r with
  | ok entries =>
      intro v hrely hinv₂
      have hv := hu.rely hrely
      have huv := Onward.of_rely hrely
      refine k _ v hv.holder hv.mapped hinv₂ (honward.trans (hbu.trans huv)) nofun ?_
      intro all heq
      cases heq
      exact ⟨fun x hx => (hok entries rfl x hx).onward huv, b, running, hv.toTrail, hopening⟩
  | error e =>
      have hu' : Held fine i (HubEvent.Undone false topic partitions running) b u :=
        hu.mono fun _ => .inl
      refine Discipline.Sat.liftBind (sat_releaseNew hu' hinv₁
        (fun handle hnot => .inr ⟨handle, rfl, hnot⟩) (fun _ => .inl trivial) ?_ ?_)
      · intro p hp hnot handle hlookup
        refine (hu.entries _ handle hlookup).resolve_left fun hold => ?_
        exact hnone p hp hnot (mem_of_lookup hold)
      · intro v hv hinv₂ _ _ hout x hrely hinv₃
        have hx := hv.rely hrely
        refine k _ x hx.holder hx.mapped hinv₃ (honward.trans (.of_trail hx.toTrail))
          (fun _ _ => .of_release hopening hx.toTrail hx.mapped hbefore fun p hp hnot => ?_) nofun
        rw [hrely.hub hv.holder]
        exact hout p hp hnot

/-- A round trip under way. -/
structure PendingOk (topic : String) (partitions : List Int) (i : Nat) (w : HubWorld)
    (task : SharedHub.Pending) : Prop where
  handed : Handed (topic, task.partition) w task.handle
  mine : task.created = true → .started task.handle ∈ w.mine i
  mem : task.partition ∈ partitions
  request : ∃ q : Request, w.requests[task.request]? = some q ∧ q.handle = task.handle

theorem PendingOk.onward {task : SharedHub.Pending} (h : PendingOk topic partitions i s task)
    (hst : Onward fine i s t) : PendingOk topic partitions i t task := by
  obtain ⟨q, hq, hhandle⟩ := h.request
  obtain ⟨q', hq', hhandle', _⟩ := hst.grown.requests task.request q hq
  exact ⟨h.handed.grown hst.grown, fun hc => hst.keeps _ (h.mine hc), h.mem,
    q', hq', hhandle'.trans hhandle⟩

theorem sat_startAll {list : List ((PumpHandle × Bool) × Int)} {position : TopicPosition}
    {Q : List SharedHub.Pending → HubWorld → Prop} (h : Roam fine i P s₀ s)
    (hP : ∀ handle, P (.registering handle)) (hlist : ∀ x ∈ list, EntryOk topic partitions i s x)
    (k : ∀ pending t, Roam fine i P s₀ t → HubInv fine t → Onward fine i s t →
      (∀ task ∈ pending, PendingOk topic partitions i t task) →
      (pending ≠ [] → ∃ handle, .registering handle ∈ t.mine i) → Q pending t) :
    HubSat fine i (SharedHub.startAll position filter list) Q s := by
  induction list generalizing s Q with
  | nil =>
      intro t hrely hinv
      exact k [] t (h.rely hrely) hinv (.of_rely hrely) (fun _ hm => absurd hm List.not_mem_nil)
        fun hne => absurd rfl hne
  | cons entry rest ih =>
      obtain ⟨⟨handle, created⟩, partition⟩ := entry
      have hentry := hlist _ List.mem_cons_self
      refine Discipline.Sat.bind (sat_send hentry.1.born fun request t hnoted hinv hq => ?_)
      have hst : Onward fine i s t := .of_noted hnoted
      have ht : Roam fine i P s₀ t := h.noted hnoted (hP handle) nofun
      have hregistered : .registering handle ∈ t.mine i := by
        rw [hnoted.mine]
        exact List.mem_append_right _ List.mem_cons_self
      have htask : PendingOk topic partitions i t { partition, created, handle, request } :=
        ⟨(hentry.onward hst).1, (hentry.onward hst).2.1, (hentry.onward hst).2.2, hq⟩
      refine Discipline.Sat.bind (ih ht
        (fun x hx => (hlist x (List.mem_cons_of_mem _ hx)).onward hst) ?_)
      intro pending u hu hinv₁ htu hpending _ v hrely hinv₂
      have htv := htu.trans (.of_rely hrely)
      refine k _ v (hu.rely hrely) hinv₂ (hst.trans htv) (fun task hm => ?_)
        fun _ => ⟨handle, htv.keeps _ hregistered⟩
      rcases List.mem_cons.mp hm with rfl | hm
      · exact htask.onward htv
      · exact (hpending task hm).onward (.of_rely hrely)

/-- What came back is served, what did not is to be tried again. -/
theorem sat_joinAll {pending : List SharedHub.Pending}
    {Q : Except HubError (List Subscription × List Int) → HubWorld → Prop}
    (h : Roam fine i P s₀ s)
    (hP : ∀ p ∈ partitions, ∀ e : HubEvent, e.Basic (topic, p) → P e)
    (hpending : ∀ task ∈ pending, PendingOk topic partitions i s task)
    (k : ∀ r t, Roam fine i P s₀ t → HubInv fine t → Onward fine i s t →
      (∀ subs retry, r = .ok (subs, retry) →
        ServedAll t (.ok subs) ∧ (∀ p ∈ retry, p ∈ partitions) ∧ (retry ≠ [] → pending ≠ [])) →
      (∀ e, r = .error e → pending ≠ []) → Q r t) :
    HubSat fine i (SharedHub.joinAll topic pending).run Q s := by
  induction pending generalizing s Q with
  | nil =>
      intro t hrely hinv
      refine k _ t (h.rely hrely) hinv (.of_rely hrely) (fun subs retry heq => ?_) nofun
      cases heq
      refine ⟨fun subs heq request hm => ?_, fun _ hm => absurd hm List.not_mem_nil,
        fun hne => absurd rfl hne⟩
      cases heq
      cases hm
  | cons task rest ih =>
      have htask := hpending task List.mem_cons_self
      refine sat_caught (sat_reply htask.handed.born htask.request ?_)
      intro r t hrely hinv hr
      have hst := Onward.of_rely hrely
      have ht := h.rely hrely
      have hrest : ∀ task ∈ rest, PendingOk topic partitions i t task :=
        fun task hm => (hpending task (List.mem_cons_of_mem _ hm)).onward hst
      have hne : task :: rest ≠ [] := List.cons_ne_nil _ _
      cases r with
      | ok sub =>
          refine Discipline.Sat.tryBind (ih ht hrest ?_)
          intro r u hu hinv₁ htu hok _
          cases r with
          | error e => exact k _ u hu hinv₁ (hst.trans htu) nofun fun _ _ => hne
          | ok both =>
              obtain ⟨subs, retry⟩ := both
              obtain ⟨hserved, hretry, _⟩ := hok subs retry rfl
              intro v hrely' hinv₂
              have huv := Onward.of_rely hrely'
              refine k _ v (hu.rely hrely') hinv₂ (hst.trans (htu.trans huv))
                (fun subs' retry' heq => ?_) nofun
              cases heq
              refine ⟨ServedAll.cons ?_ (hserved.grown huv.grown), hretry, fun _ => hne⟩
              exact (ServedOne.of_answered hr).grown (htu.trans huv).grown
      | error e =>
          obtain ⟨rfl, hclosed⟩ := hr
          have htask' := htask.onward hst
          dsimp only
          split
          next hnew =>
              refine sat_abandon ht (hP _ htask.mem) htask'.handed hclosed (htask'.mine hnew) ?_
              intro u hu _ htu v hrely' hinv₁
              exact k _ v (hu.rely hrely') hinv₁ (hst.trans (htu.trans (.of_rely hrely'))) nofun
                fun _ _ => hne
          next =>
              split
              next =>
                  refine Discipline.Sat.tryBind (ih ht hrest ?_)
                  intro r u hu hinv₁ htu hok _
                  cases r with
                  | error e => exact k _ u hu hinv₁ (hst.trans htu) nofun fun _ _ => hne
                  | ok both =>
                      obtain ⟨subs, retry⟩ := both
                      obtain ⟨hserved, hretry, _⟩ := hok subs retry rfl
                      intro v hrely' hinv₂
                      have huv := Onward.of_rely hrely'
                      refine k _ v (hu.rely hrely') hinv₂ (hst.trans (htu.trans huv))
                        (fun subs' retry' heq => ?_) nofun
                      cases heq
                      refine ⟨hserved.grown huv.grown, fun p hp => ?_, fun _ => hne⟩
                      rcases List.mem_cons.mp hp with rfl | hp
                      · exact htask.mem
                      · exact hretry p hp
              next =>
                  intro u hrely' hinv₁
                  exact k _ u (ht.rely hrely') hinv₁ (hst.trans (.of_rely hrely')) nofun
                    fun _ _ => hne

/-- What the second try returns is served. -/
theorem sat_retryAll {list : List Int} {position : TopicPosition}
    {Q : Except HubError (List Subscription) → HubWorld → Prop} (h : Roam fine i P s₀ s)
    (hP : ∀ p ∈ list, ∀ e : HubEvent, e.Basic (topic, p) → P e)
    (hP' : ∀ handle, P (.registering handle))
    (k : ∀ r t, Roam fine i P s₀ t → HubInv fine t → Onward fine i s t → ServedAll t r →
      (∀ e, r = .error e → list ≠ []) → Q r t) :
    HubSat fine i (SharedHub.retryAll topic position filter list).run Q s := by
  induction list generalizing s Q with
  | nil =>
      intro t hrely hinv
      refine k _ t (h.rely hrely) hinv (.of_rely hrely) (fun subs heq request hm => ?_) nofun
      cases heq
      cases hm
  | cons first rest ih =>
      have hne : first :: rest ≠ [] := List.cons_ne_nil _ _
      refine Discipline.Sat.tryBind (sat_sharedSubscribe h (hP first List.mem_cons_self) hP' ?_)
      intro r t ht hinv hst hserved
      cases r with
      | error e => exact k _ t ht hinv hst (.error e) fun _ _ => hne
      | ok sub =>
      refine Discipline.Sat.tryBind (ih ht (fun p hp => hP p (List.mem_cons_of_mem _ hp)) ?_)
      intro r u hu hinv₁ htu hserved' _
      cases r with
      | error e => exact k _ u hu hinv₁ (hst.trans htu) (.error e) fun _ _ => hne
      | ok subs =>
          intro v hrely hinv₂
          have huv := Onward.of_rely hrely
          exact k _ v (hu.rely hrely) hinv₂ (hst.trans (htu.trans huv))
            (ServedAll.cons (hserved.grown (htu.trans huv).grown) (hserved'.grown huv.grown)) nofun

theorem HubEvent.Spread.registers {registers : Bool} {event : HubEvent}
    (h : event.Spread registers topic partitions) : event.Spread true topic partitions := by
  cases event <;> first | rfl | exact h

/-- What was left behind stays so, as long as the call puts nothing on record. -/
theorem RolledBack.of_mine {owned : Bool} (h : RolledBack i owned s) (hgrown : Grown fine s t)
    (hmine : t.mine i = s.mine i) : RolledBack i owned t := by
  have hcovered : ∀ handle, Covered i owned t handle ↔ Covered i owned s handle := by
    intro handle
    rw [Covered, Covered, hmine]
  refine ⟨?_, ?_, ?_, ?_⟩
  · intro handle hm hc
    rw [hmine] at hm
    exact hgrown.left (h.left handle hm ((hcovered handle).mp hc))
  · intro handle hm
    rw [hmine] at hm
    exact (hcovered handle).mpr (h.released handle hm)
  · rw [hmine]
    exact h.drained
  · rw [hmine]
    exact h.told

/-- Once a registration has begun, nothing is taken back. -/
theorem RolledBack.of_registered (hmine : ∀ e ∈ b.mine i, e.Opening running)
    (h : Trail fine i (HubEvent.Spread true topic partitions) b t)
    (hregistered : .registering handle ∈ t.mine i) : RolledBack i false t := by
  have hnew : ∀ e ∈ t.mine i, e.Opening running ∨ e.Spread true topic partitions :=
    fun e he => (h.new he).imp_left (hmine e)
  refine ⟨?_, fun handle hm => ?_, fun handle hm => ?_, fun handle hm => ?_⟩
  · rintro handle' _ ⟨_, howned | hnone⟩
    · cases howned
    · exact absurd hregistered (hnone handle)
  · exact (hnew _ hm).elim False.elim False.elim
  · exact (hnew _ hm).elim False.elim False.elim
  · rcases h.told handle hm with hold | hstarted | hdrained
    · exact (hmine _ hold).elim
    · exact hstarted
    · exact hdrained.elim

theorem sat_sharedTopic {position : TopicPosition}
    {Q : Except HubError TopicSubscription → HubWorld → Prop} (hmine : s.mine i = [])
    (hfree : s.holder ≠ some i)
    (k : ∀ r t, t.holder ≠ some i → HubInv fine t → Grown fine s t →
      Served (fun sub => sub.merged.map (·.request)) t r →
      (∀ e, r = .error e → RolledBack i false t) → Q r t) :
    HubSat fine i (SharedHub.subscribeTopic topic position filter).run Q s := by
  have hstart : Roam fine i HubEvent.Asking s s := ⟨.start, hfree⟩
  refine Discipline.Sat.tryBind (sat_lockedTry hstart fun t ht hst hinv => ?_)
  refine sat_knownPartitions ht trivial (fun _ => trivial) fun r u hu _ _ _ _ => ⟨hu, ?_⟩
  intro v hv hsv _ hinv₁
  have hasking : ∀ e ∈ v.mine i, e.Asking := by
    intro e he
    refine (hv.new he).resolve_left fun hm => ?_
    rw [hmine] at hm
    cases hm
  cases r with
  | error e => exact k _ v hv.free hinv₁ hsv.grown (.error e) fun _ _ => .of_asking hasking
  | ok partitions =>
  refine Discipline.Sat.tryBind (sat_locked fun t hholder hmapped hgrown hmine' _ => ?_)
  refine sat_acquireAll hholder hmapped (by rw [hmine']; exact hasking) ?_
  intro r u hheld hmapped' _ htu hfail hok
  refine ⟨hheld, hmapped', fun x hux hmine_x hfree_x hinv₂ => ?_⟩
  have hsx : Onward fine i s x :=
    (hsv.trans (.of_mine hgrown hmine')).trans (htu.trans (.of_mine hux hmine_x))
  cases r with
  | error e =>
      exact k _ x hfree_x hinv₂ hsx.grown (.error e)
        fun _ _ => (hfail e rfl).of_mine hux hmine_x
  | ok entries =>
  obtain ⟨hentries, b, running, htrail, hopening⟩ := hok entries rfl
  have hx : Roam fine i (HubEvent.Spread true topic partitions) b x :=
    ⟨(htrail.mono fun _ => HubEvent.Spread.registers).of_mine hux hmine_x, hfree_x⟩
  have hbasic : ∀ p ∈ partitions, ∀ e : HubEvent, e.Basic (topic, p) →
      e.Spread true topic partitions := fun p hp e he => he.spread hp
  refine Discipline.Sat.liftBind (sat_startAll hx (fun _ => rfl)
    (fun y hy => (hentries y hy).onward (.of_mine hux hmine_x)) ?_)
  intro pending y hy hinv₃ hxy hpending hregistered
  refine Discipline.Sat.tryBind (sat_joinAll hy hbasic hpending ?_)
  intro r z hz hinv₄ hyz hjoined hne
  have hsz := hsx.trans (hxy.trans hyz)
  cases r with
  | error e =>
      obtain ⟨handle, hreg⟩ := hregistered (hne e rfl)
      exact k _ z hz.free hinv₄ hsz.grown (.error e) fun _ _ =>
        .of_registered hopening hz.toTrail (hyz.keeps _ hreg)
  | ok both =>
  obtain ⟨subs, retry⟩ := both
  obtain ⟨hserved, hretry, hne'⟩ := hjoined subs retry rfl
  refine Discipline.Sat.tryBind (sat_retryAll hz (fun p hp => hbasic p (hretry p hp))
    (fun _ => rfl) ?_)
  intro r a ha hinv₅ hza hserved' hne₂
  have hsa := hsz.trans hza
  cases r with
  | error e =>
      obtain ⟨handle, hreg⟩ := hregistered (hne' (hne₂ e rfl))
      exact k _ a ha.free hinv₅ hsa.grown (.error e) fun _ _ =>
        .of_registered hopening ha.toTrail (hza.keeps _ (hyz.keeps _ hreg))
  | ok retried =>
      intro c hrely hinv₆
      have hac := Onward.of_rely hrely
      refine k _ c (ha.rely hrely).free hinv₆ (hsa.trans hac).grown
        (fun sub heq request hm => ?_) nofun
      cases heq
      simp only [Hub.merge, List.map_append] at hm
      rcases List.mem_append.mp hm with hm | hm
      · exact hserved.grown (hza.trans hac).grown subs rfl request hm
      · exact hserved'.grown hac.grown retried rfl request hm

end Topic

end Odradek.Web
