import Odradek.Web.PumpInvariant

/-!
Every step of the pump and of its surroundings preserves the invariant: one
lemma an action, then the induction over runs.
-/

namespace Odradek.Web.World

open Library

variable {config : PumpConfig} {w : World}

theorem forall_modify {α : Type} {P : α → Prop} {l : List α} {i : Nat} {f : α → α}
    (all : ∀ x ∈ l, P x) (new : ∀ x, l[i]? = some x → P (f x)) : ∀ x ∈ l.modify i f, P x := by
  intro x hx
  obtain ⟨j, hj⟩ := List.mem_iff_getElem?.mp hx
  rw [List.getElem?_modify] at hj
  split at hj
  next hij =>
      subst hij
      obtain ⟨y, hy, rfl⟩ := Option.map_eq_some_iff.mp hj
      exact new y hy
  next => exact all x (List.mem_of_getElem? (by simpa using hj))

theorem front_eq_liveEdge (h : ∀ c p r n, w.pump.pc ≠ .fanningOut c p r n) :
    w.front = w.pump.liveEdge := by
  unfold front
  split
  next hpc => exact absurd hpc (h _ _ _ _)
  next => rfl

theorem Replaying.grown {log : List Event} {settled : Cursor} {index : Nat} {rest : List Event}
    {high : Cursor} (h : w.Replaying index rest high)
    (hg : w.view.Grown { w with log, settled }.view) :
    { w with log, settled }.Replaying index rest high := by
  refine ⟨le_trans h.1 hg.settled, fun s hs => ?_⟩
  obtain ⟨hc, hm, hr⟩ := h.2 s hs
  exact ⟨hc, hm, hr.trans (hg.window (.inr h.1)).symm⟩

/-- What a control point relies on holds of a longer log too. -/
theorem PcOk.grown {log : List Event} {settled : Cursor} (h : w.PcOk)
    (hg : w.view.Grown { w with log, settled }.view) : { w with log, settled }.PcOk := by
  cases hpc : w.pump.pc with
  | loopHead | idle | draining | exited => simp [PcOk, hpc]
  | awaitLiveStart | awaitLiveFetch _ | servingRing _ | choosing | awaitCatchUp _ =>
      simpa [PcOk, hpc] using h
  | fanningOut cursor pushed rest nextAfter =>
      simp only [PcOk, hpc] at h ⊢
      obtain ⟨hedge, hnext, front, hfront, hle, hor, hrest⟩ := h
      refine ⟨hedge, le_trans hnext hg.settled, front, hg.front.trans hfront, hle, hor, ?_⟩
      exact hrest.trans (hg.window (.inr hnext)).symm
  | replayingRing index rest =>
      simp only [PcOk, hpc] at h ⊢
      obtain ⟨edge, hedge, hrun, hle⟩ := h
      exact ⟨edge, hedge, hrun.grown hg, hle⟩
  | replayingFetch index rest nextAfter =>
      simp only [PcOk, hpc] at h ⊢
      exact h.grown hg

/-- The log may grow behind what is settled at any moment. -/
theorem Inv.grown {log : List Event} {settled : Cursor} (h : w.Inv config)
    (hg : w.view.Grown { w with log, settled }.view)
    (hv : { w with log, settled }.view.Ordered) : { w with log, settled }.Inv config where
  capacity := h.capacity
  ordered := hv
  known := h.known
  ring := h.ring.grown hg
  subs s hs := (h.subs s hs).grown hg
  ended s hs := (h.ended s hs).grown hg
  pc := h.pc.grown hg

theorem inv_append (h : w.Inv config) (event : Event)
    (hnew : w.settled < (event.offset : Cursor)) :
    { w with log := w.log ++ [event], settled := event.offset }.Inv config := by
  refine h.grown ⟨⟨[event], rfl, ?_⟩, hnew.le, rfl, rfl⟩ ⟨?_, ?_⟩
  · intro e he
    rw [List.mem_singleton.mp he]
    exact hnew
  · refine h.ordered.ascending.append_singleton fun y hy => ?_
    exact WithBot.coe_lt_coe.mp (lt_of_le_of_lt (h.ordered.below y hy) hnew)
  · intro e he
    rcases List.mem_append.mp he with he | he
    · exact le_trans (h.ordered.below e he) hnew.le
    · rw [List.mem_singleton.mp he]
      rfl

/-- A fetch answer settles the log up to its `next_after`. -/
theorem inv_settle (h : w.Inv config) (next : Cursor) :
    { w with settled := max w.settled next }.Inv config := by
  refine h.grown ⟨⟨[], by simp [view], by simp⟩, le_max_left _ _, rfl, rfl⟩ ⟨?_, ?_⟩
  · exact h.ordered.ascending
  · exact fun e he => le_trans (h.ordered.below e he) (le_max_left _ _)

/-- Changing the subscribers' channels only, whatever the control point. -/
theorem PcOk.map {f : Subscriber → Subscriber} (h : w.PcOk)
    (hf : ∀ s, (f s).state.closed = s.state.closed ∧ (f s).state.mode = s.state.mode ∧
      (f s).state.cursor = s.state.cursor) (ended : List Subscriber) :
    { w.withList (w.pump.subs.list.map f) with ended }.PcOk := by
  have look : ∀ {index : Nat} {s : Subscriber}, (w.pump.subs.list.map f)[index]? = some s →
      ∃ s₀, w.pump.subs.list[index]? = some s₀ ∧ f s₀ = s := by
    intro index s hs
    rw [List.getElem?_map] at hs
    exact Option.map_eq_some_iff.mp hs
  have replay : ∀ {index : Nat} {rest : List Event} {high : Cursor},
      w.Replaying index rest high →
      { w.withList (w.pump.subs.list.map f) with ended }.Replaying index rest high := by
    intro index rest high hrun
    refine ⟨hrun.1, fun s hs => ?_⟩
    obtain ⟨s₀, hs₀, rfl⟩ := look hs
    obtain ⟨hc, hm, hcur⟩ := hf s₀
    rw [hc, hm, hcur]
    exact hrun.2 s₀ hs₀
  cases hpc : w.pump.pc with
  | loopHead | idle | draining | exited => simp [PcOk, withList, hpc]
  | awaitLiveStart | awaitLiveFetch _ | servingRing _ | choosing =>
      simpa [PcOk, withList, hpc] using h
  | fanningOut _ _ _ _ => simpa [PcOk, withList, hpc, front] using h
  | awaitCatchUp index =>
      simp only [PcOk, hpc] at h
      simp only [PcOk, withList, hpc]
      intro s hs
      obtain ⟨s₀, hs₀, rfl⟩ := look hs
      obtain ⟨hc, hm, _⟩ := hf s₀
      rw [hc, hm]
      exact h s₀ hs₀
  | replayingRing index rest =>
      simp only [PcOk, hpc] at h
      obtain ⟨edge, hedge, hrun, hle⟩ := h
      simp only [PcOk, withList, hpc]
      refine ⟨edge, hedge, replay hrun, fun s hs => ?_⟩
      obtain ⟨s₀, hs₀, rfl⟩ := look hs
      rw [(hf s₀).2.2]
      exact hle s₀ hs₀
  | replayingFetch index rest nextAfter =>
      simp only [PcOk, hpc] at h
      simp only [PcOk, withList, hpc]
      exact replay h

/-- What happens to one channel leaves the invariant to the others. -/
theorem inv_onChannel (h : w.Inv config) (id : Nat) (f : Channel → Channel)
    (hopen : ∀ s, Following w.view s →
      Following w.view { s with state := { s.state with sender := f s.state.sender } })
    (hended : ∀ s, Delivered w.view s →
      Delivered w.view { s with state := { s.state with sender := f s.state.sender } }) :
    (w.onChannel id f).Inv config where
  capacity := h.capacity
  ordered := h.ordered
  known := h.known
  ring := h.ring
  subs s hs := by
    obtain ⟨s₀, hs₀, rfl⟩ := List.mem_map.mp hs
    split
    · exact hopen s₀ (h.subs s₀ hs₀)
    · exact h.subs s₀ hs₀
  ended s hs := by
    obtain ⟨s₀, hs₀, rfl⟩ := List.mem_map.mp hs
    split
    · exact hended s₀ (h.ended s₀ hs₀)
    · exact h.ended s₀ hs₀
  pc := by
    refine h.pc.map (fun s => ?_) _
    split <;> exact ⟨rfl, rfl, rfl⟩

theorem inv_receive (h : w.Inv config) (id : Nat) : (w.onChannel id Channel.receive).Inv config :=
  inv_onChannel h id _ (fun _ hs => hs.frame rfl rfl (Nat.sub_le _ _) rfl)
    fun _ hs => hs.frame rfl rfl

theorem inv_dropReceiver (h : w.Inv config) (id : Nat) :
    (w.onChannel id Channel.dropReceiver).Inv config :=
  inv_onChannel h id _ (fun _ hs => hs.frame rfl rfl (Nat.zero_le _) rfl)
    fun _ hs => hs.frame rfl rfl

theorem inv_unpark (h : w.Inv config) (id : Nat) : (w.onChannel id Channel.unpark).Inv config :=
  inv_onChannel h id _ (fun _ hs => hs.unpark h.ordered) fun _ hs => hs.unpark

/-- The pump moves to a control point outside a batch: only what that point
relies on has to be shown. -/
theorem Inv.goto (h : w.Inv config) (pc : Pc) (hfront : w.front = w.pump.liveEdge)
    (hpc : ∀ c p r n, pc ≠ .fanningOut c p r n) (hok : (w.goto pc).PcOk) :
    (w.goto pc).Inv config := by
  have hview : (w.goto pc).view = w.view := by
    simp only [view, hfront]
    rw [front_eq_liveEdge (w := w.goto pc) (by simpa [World.goto] using hpc)]
    rfl
  exact ⟨h.capacity, hview ▸ h.ordered, h.known, hview ▸ h.ring, hview ▸ h.subs,
    hview ▸ h.ended, hok⟩

/-- Other subscribers, other control point, same view of the log. -/
theorem Inv.withList (h : w.Inv config) (pc : Pc) {list : List Subscriber}
    (hfront : w.front = w.pump.liveEdge) (hpc : ∀ c p r n, pc ≠ .fanningOut c p r n)
    (hlist : ∀ s ∈ list, Following w.view s)
    (hok : ((w.withList list).goto pc).PcOk) : ((w.withList list).goto pc).Inv config := by
  have hview : ((w.withList list).goto pc).view = w.view := by
    simp only [view, hfront]
    rw [front_eq_liveEdge (w := (w.withList list).goto pc) (by simpa [World.goto] using hpc)]
    rfl
  exact ⟨h.capacity, hview ▸ h.ordered, h.known, hview ▸ h.ring, hview ▸ hlist,
    hview ▸ h.ended, hok⟩

theorem inv_exit (h : w.Inv config) (hfront : w.front = w.pump.liveEdge) :
    w.exit.Inv config := by
  have hbase := h.withList .exited hfront (by simp) (List.forall_mem_nil _)
    (by simp [PcOk, World.goto])
  have hview : w.exit.view = w.view := by
    simp only [view, hfront]
    rw [front_eq_liveEdge (w := w.exit) (by simp [exit, World.goto])]
    rfl
  refine ⟨hbase.capacity, hbase.ordered, hbase.known, hbase.ring, hbase.subs, ?_, hbase.pc⟩
  intro s hs
  rw [hview]
  rcases List.mem_append.mp hs with hs | hs
  · exact h.ended s hs
  · exact (h.subs s hs).delivered h.ordered

theorem inv_failSubs (h : w.Inv config) (hfront : w.front = w.pump.liveEdge) (e : SourceError) :
    (w.failSubs e).Inv config := by
  have hlist : ∀ s ∈ w.pump.subs.list.map (fun s : Subscriber =>
      if s.state.closed then s else { s with state := s.state.fail e }), Following w.view s := by
    intro s hs
    obtain ⟨s₀, hs₀, rfl⟩ := List.mem_map.mp hs
    split
    · exact h.subs s₀ hs₀
    · next hc => exact (h.subs s₀ hs₀).failed h.ordered (by simpa using hc) e
  have hloop := h.withList .loopHead hfront (by simp) hlist (by simp [PcOk, World.goto])
  have hexit := inv_exit hloop rfl
  exact hexit

/-- Letting subscribers go keeps the invariant. -/
theorem inv_retainLive (h : w.Inv config) (hfront : w.front = w.pump.liveEdge) :
    w.retainLive.Inv config := by
  have hview : w.retainLive.view = w.view := by
    simp only [view, hfront]
    rw [front_eq_liveEdge (w := w.retainLive)]
    · rfl
    · simp only [retainLive, World.goto]
      split <;> simp
  refine ⟨h.capacity, hview ▸ h.ordered, h.known, hview ▸ h.ring, ?_, ?_, ?_⟩
  · intro s hs
    rw [hview]
    exact h.subs s (List.mem_of_mem_filter hs)
  · intro s hs
    rw [hview]
    rcases List.mem_append.mp hs with hs | hs
    · exact h.ended s hs
    · exact (h.subs s (List.mem_of_mem_filter hs)).delivered h.ordered
  · cases hempty : (w.pump.subs.list.filter fun s : Subscriber =>
        !s.state.closed && s.state.sender.receiverOpen).isEmpty <;>
      simp [PcOk, retainLive, World.goto, hempty]

theorem Inv.onSub (h : w.Inv config) {pc : Pc} {index : Nat} {f : SubState → SubState}
    (hfront : w.front = w.pump.liveEdge) (hpc : ∀ c p r n, pc ≠ .fanningOut c p r n)
    (hsub : ∀ s, w.pump.subs.list[index]? = some s →
      Following w.view { s with state := f s.state })
    (hok : ((w.onSub index f).goto pc).PcOk) : ((w.onSub index f).goto pc).Inv config :=
  h.withList pc hfront hpc (forall_modify h.subs hsub) hok

theorem getElem?_onSub {index : Nat} {f : SubState → SubState} {s : Subscriber}
    {pc : Pc} (hs : ((w.onSub index f).goto pc).pump.subs.list[index]? = some s) :
    ∃ s₀, w.pump.subs.list[index]? = some s₀ ∧ { s₀ with state := f s₀.state } = s := by
  simp only [World.goto, World.onSub, withList, List.getElem?_modify_eq] at hs
  exact Option.map_eq_some_iff.mp hs

/-- A subscription starts having been shown nothing, where it asked to. -/
theorem inv_subscribe (h : w.Inv config) (hfront : w.front = w.pump.liveEdge)
    (position : Position) (filter : Filter) :
    ((w.subscribe config position filter).goto .draining).Inv config := by
  have empty : ∀ cursor : Cursor, Event.window cursor cursor w.log = [] := fun cursor =>
    window_eq_nil_of_le (le_refl cursor) _
  have first : ∀ s ∈ (w.subscribe config position filter).pump.subs.list,
      Following w.view s := by
    intro s hs
    rcases List.mem_append.mp hs with hs | hs
    · exact h.subs s hs
    rw [List.mem_singleton.mp hs]
    refine ⟨by simp, fun _ => ⟨rfl, le_rfl, h.capacity⟩, fun _ => ?_⟩
    cases position with
    | earliest | after _ =>
        refine .catchingUp _ rfl rfl ⟨?_, le_rfl, .inl le_rfl⟩
        simp [Channel.new, view, empty, Filter.shown]
    | latest =>
        cases hedge : w.pump.liveEdge with
        | unknown =>
            refine .waiting ?_ (hfront.trans hedge) rfl rfl
            simp [Subscriber.resolvedStart, view, h.known.mpr hedge]
        | «at» edge =>
            refine .live edge edge rfl (hfront.trans hedge) rfl ⟨?_, le_rfl, .inl le_rfl⟩
              (.inr (empty edge))
            simp [Channel.new, view, empty, Filter.shown]
  have hlist := h.withList .draining hfront (by simp) first (by simp [PcOk, World.goto])
  exact ⟨hlist.capacity, hlist.ordered, hlist.known, hlist.ring, hlist.subs, hlist.ended,
    hlist.pc⟩

theorem inv_liveError (h : w.Inv config) (hfront : w.front = w.pump.liveEdge) (e : SourceError)
    {retry : Pc} (hretry : retry = .loopHead ∨ ∃ edge, w.pump.liveEdge = .at edge ∧
      retry = .servingRing 0) : (w.liveError config e retry).Inv config := by
  have hcount : { w with pump := { w.pump with
      consecutiveErrors := w.pump.consecutiveErrors + 1 } }.Inv config :=
    ⟨h.capacity, h.ordered, h.known, h.ring, h.subs, h.ended, h.pc⟩
  simp only [liveError]
  split
  · exact inv_failSubs hcount hfront e
  · refine hcount.goto retry hfront ?_ ?_
    · rcases hretry with rfl | ⟨_, _, rfl⟩ <;> simp
    · rcases hretry with rfl | ⟨edge, hedge, rfl⟩
      · simp [PcOk, World.goto]
      · exact ⟨edge, hedge⟩

/-- The source's answer to `live_start` places the ring and everybody waiting. -/
theorem inv_liveStart (h : w.Inv config) (hpc : w.pump.pc = .awaitLiveStart) (start : Cursor) :
    { w with
      liveStart := .at start
      pump := { w.pump with
        liveEdge := .at start
        ring := w.pump.ring.rebase start
        pc := .awaitLiveFetch start } }.Inv config := by
  have hedge : w.pump.liveEdge = .unknown := by
    have := h.pc
    simpa only [PcOk, hpc] using this
  have hfront : w.view.front = .unknown :=
    (front_eq_liveEdge (w := w) (by simp [hpc])).trans hedge
  have hfollow : ∀ s ∈ w.pump.subs.list,
      Following { w.view with liveStart := .at start, front := .at start } s :=
    fun s hs => (h.subs s hs).resolve (h.known.mpr hedge) hfront
  refine ⟨h.capacity, ⟨h.ordered.ascending, h.ordered.below⟩, by simp, ?_, hfollow, ?_, rfl⟩
  · have hring := h.ring
    simp only [Ring.Holds, hfront] at hring
    refine ⟨?_, le_rfl, .inl le_rfl⟩
    exact hring.trans (window_eq_nil_of_le (le_refl start) _).symm
  · exact fun s hs => (h.ended s hs).resolve (h.known.mpr hedge) _

end Odradek.Web.World
