import Odradek.Web.PumpSteps

/-!
The pump's own steps preserve the invariant: what a fetch brings, the fan-out
of a live batch, ring replay and catch-up. With the steps of its surroundings
this makes the invariant hold in every run.
-/

namespace Odradek.Web.World

open Library

variable {config : PumpConfig} {w : World}

private theorem window_self (cursor : Cursor) (log : List Event) :
    Event.window cursor cursor log = [] :=
  window_eq_nil_of_le (le_refl cursor) log

private theorem front_of_pc {pc : Pc} (h : w.pump.pc = pc)
    (hpc : ∀ c p r n, pc ≠ .fanningOut c p r n) : w.front = w.pump.liveEdge :=
  front_eq_liveEdge (by rw [h]; exact hpc)

/-- A live fetch opens a fan-out at the edge. -/
theorem inv_liveFetched (h : w.Inv config) {cursor : Cursor}
    (hpc : w.pump.pc = .awaitLiveFetch cursor) {batch : SourceBatch}
    (hnext : batch.nextAfter ≤ w.settled)
    (hev : batch.events = Event.window cursor batch.nextAfter w.log) :
    ({ w with pump := { w.pump with consecutiveErrors := 0 } }.goto
      (.fanningOut cursor [] batch.events batch.nextAfter)).Inv config := by
  have hedge : w.pump.liveEdge = .at cursor := by
    have := h.pc
    simpa only [PcOk, hpc] using this
  have hview : ({ w with pump := { w.pump with consecutiveErrors := 0 } }.goto
      (.fanningOut cursor [] batch.events batch.nextAfter)).view = w.view := by
    simp [view, front, World.goto, hpc, hedge]
  exact ⟨h.capacity, hview ▸ h.ordered, h.known, hview ▸ h.ring, hview ▸ h.subs,
    hview ▸ h.ended, hedge, hnext, cursor, rfl, le_rfl, .inl rfl, hev⟩

/-- A catch-up fetch opens a replay at the subscriber's cursor. -/
theorem inv_catchUpFetched (h : w.Inv config) {index : Nat}
    (hpc : w.pump.pc = .awaitCatchUp index) {batch : SourceBatch}
    (hnext : batch.nextAfter ≤ w.settled) {s : Subscriber}
    (hs : w.pump.subs.list[index]? = some s)
    (hev : batch.events = Event.window s.state.cursor batch.nextAfter w.log) :
    ((w.onSub index fun sub => { sub with catchUpErrors := 0 }).goto
      (.replayingFetch index (skipSeen batch.events s.state.cursor) batch.nextAfter)).Inv
        config := by
  have hopen := h.pc
  simp only [PcOk, hpc] at hopen
  refine h.onSub (front_of_pc hpc (by simp)) (by simp) ?_ ⟨hnext, ?_⟩
  · intro t ht
    exact (h.subs t (List.mem_of_getElem? ht)).frame rfl rfl le_rfl rfl
  · intro t ht
    obtain ⟨t₀, ht₀, rfl⟩ := getElem?_onSub ht
    obtain rfl : s = t₀ := Option.some.inj (hs.symm.trans ht₀)
    refine ⟨(hopen s hs).1, (hopen s hs).2, ?_⟩
    rw [skipSeen, hev]
    exact dropWhile_window h.ordered.ascending le_rfl

/-- A failed catch-up fetch is counted against its subscriber, or ends it. -/
theorem inv_catchUpFailed (h : w.Inv config) {index : Nat}
    (hpc : w.pump.pc = .awaitCatchUp index) (e : SourceError) :
    ((w.onSub index (·.catchUpFailed config e)).goto .loopHead).Inv config := by
  have hopen := h.pc
  simp only [PcOk, hpc] at hopen
  refine h.onSub (front_of_pc hpc (by simp)) (by simp) ?_ (by simp [PcOk, World.goto])
  intro s hs
  have hcount : Following w.view { s with state :=
      { s.state with catchUpErrors := s.state.catchUpErrors + 1 } } :=
    (h.subs s (List.mem_of_getElem? hs)).frame rfl rfl le_rfl rfl
  simp only [SubState.catchUpFailed]
  split
  · exact hcount.failed h.ordered (hopen s hs).1 e
  · exact hcount

/-- An answer the source may give keeps the invariant. -/
theorem inv_fetched (h : w.Inv config) {answer : Except SourceError SourceBatch}
    (honours : w.Honours (.fetched answer)) {w' : World}
    (hstep : w.fetched config answer = some w') : w'.Inv config := by
  cases answer with
  | ok batch =>
      have hsettle := inv_settle h batch.nextAfter
      simp only [fetched] at hstep
      cases hpc : w.pump.pc with
      | awaitLiveFetch cursor =>
          simp only [hpc, Option.some.injEq] at hstep
          subst hstep
          exact inv_liveFetched hsettle hpc (le_max_right _ _)
            (honours cursor (by simp [asked, hpc]))
      | awaitCatchUp index =>
          simp only [hpc] at hstep
          obtain ⟨s, hs, rfl⟩ := Option.map_eq_some_iff.mp hstep
          exact inv_catchUpFetched hsettle hpc (le_max_right _ _) hs
            (honours s.state.cursor (by simp [asked, hpc, hs]))
      | _ => simp [hpc] at hstep
  | error e =>
      simp only [fetched] at hstep
      cases hpc : w.pump.pc with
      | awaitLiveFetch cursor =>
          simp only [hpc, Option.some.injEq] at hstep
          subst hstep
          have hedge := h.pc
          simp only [PcOk, hpc] at hedge
          exact inv_liveError h (front_of_pc hpc (by simp)) e (.inr ⟨cursor, hedge, rfl⟩)
      | awaitCatchUp index =>
          simp only [hpc] at hstep
          split at hstep
          · cases hstep
            exact inv_failSubs h (front_of_pc hpc (by simp)) e
          · cases hstep
            exact inv_catchUpFailed h hpc e
      | _ => simp [hpc] at hstep

/-- One event of a live batch goes to every live subscriber and into the ring. -/
theorem inv_fanOut (h : w.Inv config) {cursor nextAfter : Cursor} {pushed rest : List Event}
    {event : Event} (hpc : w.pump.pc = .fanningOut cursor pushed (event :: rest) nextAfter) :
    (({ w with pump := { w.pump with ring := w.pump.ring.push event } }.withList
      (w.pump.subs.list.map fun s : Subscriber => { s with state := s.state.pushLive event })).goto
      (.fanningOut cursor (pushed ++ [event]) rest nextAfter)).Inv config := by
  have hok := h.pc
  simp only [PcOk, hpc] at hok
  obtain ⟨hedge, hnext, front, hfront, hle, _, hrest⟩ := hok
  obtain ⟨hlt, hhigh, hone, hrest'⟩ := window_eq_cons h.ordered.ascending hrest.symm
  have hview : (({ w with pump := { w.pump with ring := w.pump.ring.push event } }.withList
      (w.pump.subs.list.map fun s : Subscriber => { s with state := s.state.pushLive event })).goto
      (.fanningOut cursor (pushed ++ [event]) rest nextAfter)).view =
      { w.view with front := .at event.offset } := by
    simp [view, World.front, World.goto, withList]
  refine ⟨h.capacity, ?_, h.known, ?_, ?_, ?_, hedge, hnext, event.offset, ?_, ?_, ?_, ?_⟩
  · rw [hview]
    exact ⟨h.ordered.ascending, h.ordered.below⟩
  · rw [hview]
    exact h.ring.push h.ordered hfront hone
  · intro s hs
    obtain ⟨s₀, hs₀, rfl⟩ := List.mem_map.mp hs
    rw [hview]
    exact (h.subs s₀ hs₀).pushLive h.ordered hfront hone
  · intro s hs
    rw [hview]
    exact (h.ended s hs).front _
  · simp [World.front, World.goto]
  · exact le_trans hle hlt.le
  · exact .inr hhigh
  · exact hrest'.symm

/-- At the end of a batch the edge crosses what the batch left empty. -/
theorem inv_fannedOut (h : w.Inv config) {cursor nextAfter : Cursor} {pushed : List Event}
    (hpc : w.pump.pc = .fanningOut cursor pushed [] nextAfter) :
    ({ w with pump := { w.pump with liveEdge := .at (max nextAfter cursor) } }.goto
      (.servingRing 0)).Inv config := by
  have hok := h.pc
  simp only [PcOk, hpc] at hok
  obtain ⟨hedge, hnext, front, hfront, hle, hor, hrest⟩ := hok
  have hmax : front ≤ max nextAfter cursor :=
    hor.elim (fun heq => heq ▸ le_max_right _ _) fun hle => le_trans hle (le_max_left _ _)
  have hfinal : max nextAfter cursor = front ∨ max nextAfter cursor ≤ w.settled := by
    rcases le_total nextAfter cursor with hc | hc
    · rw [max_eq_right hc]
      exact .inl (le_antisymm hle (hor.elim le_of_eq fun hf => le_trans hf hc))
    · rw [max_eq_left hc]
      exact .inr hnext
  have hempty : Event.window front (max nextAfter cursor) w.log = [] := by
    rcases le_total nextAfter cursor with hc | hc
    · rw [max_eq_right hc]
      exact window_eq_nil_of_le hle _
    · rw [max_eq_left hc]
      exact hrest.symm
  have hknown : w.liveStart ≠ .unknown := fun hu => by simp [h.known.mp hu] at hedge
  refine ⟨h.capacity, ⟨h.ordered.ascending, h.ordered.below⟩, ?_,
    h.ring.advance h.ordered hfront hmax hfinal hempty, ?_, ?_, _, rfl⟩
  · simpa [World.goto] using hknown
  · exact fun s hs => (h.subs s hs).advance h.ordered hfront hmax hfinal hempty
  · exact fun s hs => (h.ended s hs).front _

/-- `advance_from_ring` leaves a subscriber, finds it at the edge, or starts a
run that the ring covers. -/
theorem advanceFromRing_cases (sub : SubState) (ring : Ring) (edge : Cursor) :
    sub.advanceFromRing ring edge = (sub, none) ∨
    (sub.mode = .catchingUp ∧ sub.cursor = edge ∧
      sub.advanceFromRing ring edge = ({ sub with mode := .live }, none)) ∨
    (sub.mode = .catchingUp ∧ sub.closed = false ∧ sub.cursor < edge ∧
      ring.floor ≤ sub.cursor ∧
      sub.advanceFromRing ring edge = (sub, some (ring.after sub.cursor))) := by
  unfold SubState.advanceFromRing
  split
  · exact .inl rfl
  next hopen =>
      obtain ⟨hm, hc⟩ := not_or.mp hopen
      have hm : sub.mode = .catchingUp := by simpa using hm
      split
      next hle =>
          split
          next heq => exact .inr (.inl ⟨hm, heq, rfl⟩)
          next => exact .inl rfl
      next hle =>
          split
          next => exact .inl rfl
          next hcover =>
              have hcover : ring.floor ≤ sub.cursor := by simpa [Ring.covers] using hcover
              exact .inr (.inr ⟨hm, by simpa using hc, not_le.mp hle, hcover, rfl⟩)

/-- One subscriber is served from the ring, or has its run to replay. -/
theorem inv_serveRing (h : w.Inv config) {index : Nat} (hpc : w.pump.pc = .servingRing index)
    {edge : Cursor} (hedge : w.pump.liveEdge = .at edge) {s : Subscriber}
    (hs : w.pump.subs.list[index]? = some s) :
    (match s.state.advanceFromRing w.pump.ring edge with
      | (sub, none) => (w.onSub index fun _ => sub).goto (.servingRing (index + 1))
      | (_, some run) => w.goto (.replayingRing index run)).Inv config := by
  have hfront := front_of_pc hpc (by simp)
  have hfollow := h.subs s (List.mem_of_getElem? hs)
  have put : ∀ sub, Following w.view { s with state := sub } →
      ((w.onSub index fun _ => sub).goto (.servingRing (index + 1))).Inv config := by
    intro sub hsub
    refine h.onSub hfront (by simp) (fun t ht => ?_) ⟨edge, hedge⟩
    obtain rfl : s = t := Option.some.inj (hs.symm.trans ht)
    exact hsub
  rcases advanceFromRing_cases s.state w.pump.ring edge with
    heq | ⟨hm, hcur, heq⟩ | ⟨hm, hc, hlt, hfloor, heq⟩
  · rw [heq]
    exact put _ hfollow
  · rw [heq]
    refine put _ (hfollow.goLive h.ordered hm (hfront.trans hedge) (le_of_eq hcur)
      (.inl (le_of_eq hcur.symm)) ?_)
    rw [hcur]
    exact window_self _ _
  · rw [heq]
    have hring := h.ring
    simp only [Ring.Holds, show w.view.front = .at edge from hfront.trans hedge] at hring
    have hsettled : edge ≤ w.settled :=
      hring.2.2.resolve_left (not_le.mpr (lt_of_le_of_lt hfloor hlt))
    refine h.goto _ hfront (by simp) ⟨edge, hedge, ⟨hsettled, fun t ht => ?_⟩, fun t ht => ?_⟩
    · obtain rfl : s = t := Option.some.inj (hs.symm.trans ht)
      exact ⟨hc, hm, h.ring.after_eq h.ordered (hfront.trans hedge) hfloor⟩
    · obtain rfl : s = t := Option.some.inj (hs.symm.trans ht)
      exact hlt.le

/-- One event of a run from the ring. -/
theorem inv_replayRing (h : w.Inv config) {index : Nat} {event : Event} {rest : List Event}
    (hpc : w.pump.pc = .replayingRing index (event :: rest)) {s : Subscriber}
    (hs : w.pump.subs.list[index]? = some s) :
    (match s.state.pushRunStep event with
      | .shown sub => (w.onSub index fun _ => sub).goto (.replayingRing index rest)
      | .stalled => w.goto (.servingRing (index + 1))
      | .closed => (w.onSub index fun sub => { sub with closed := true }).goto
          (.servingRing (index + 1))).Inv config := by
  have hok := h.pc
  simp only [PcOk, hpc] at hok
  obtain ⟨edge, hedge, ⟨hsettled, hrun⟩, _⟩ := hok
  obtain ⟨hc, hm, hrest⟩ := hrun s hs
  have hfront := front_of_pc hpc (by simp)
  have hfollow := h.subs s (List.mem_of_getElem? hs)
  cases hstep : s.state.pushRunStep event with
  | shown sub =>
      obtain ⟨hsub, hc', hm', hrest', hle⟩ := hfollow.pushRunStep h.ordered hc hm hrest.symm hstep
      refine h.onSub hfront (by simp) (fun t ht => ?_)
        ⟨edge, hedge, ⟨hsettled, fun t ht => ?_⟩, fun t ht => ?_⟩
      · obtain rfl : s = t := Option.some.inj (hs.symm.trans ht)
        exact hsub
      · obtain ⟨_, _, rfl⟩ := getElem?_onSub ht
        exact ⟨hc', hm', hrest'.symm⟩
      · obtain ⟨_, _, rfl⟩ := getElem?_onSub ht
        exact hle
  | stalled => exact h.goto _ hfront (by simp) ⟨edge, hedge⟩
  | closed =>
      refine h.onSub hfront (by simp) (fun t ht => ?_) ⟨edge, hedge⟩
      exact (h.subs t (List.mem_of_getElem? ht)).close h.ordered

/-- A ring replayed to its end leaves its subscriber at the edge. -/
theorem inv_replayedRing (h : w.Inv config) {index : Nat}
    (hpc : w.pump.pc = .replayingRing index []) :
    ((w.onSub index fun sub => { sub with mode := .live }).goto
      (.servingRing (index + 1))).Inv config := by
  have hok := h.pc
  simp only [PcOk, hpc] at hok
  obtain ⟨edge, hedge, ⟨hsettled, hrun⟩, hle⟩ := hok
  have hfront := front_of_pc hpc (by simp)
  refine h.onSub hfront (by simp) (fun s hs => ?_) ⟨edge, hedge⟩
  obtain ⟨_, hm, hrest⟩ := hrun s hs
  exact (h.subs s (List.mem_of_getElem? hs)).goLive h.ordered hm (hfront.trans hedge) (hle s hs)
    (.inr hsettled) hrest.symm

/-- One event of a run from a fetch. -/
theorem inv_replayFetch (h : w.Inv config) {index : Nat} {event : Event} {rest : List Event}
    {nextAfter : Cursor} (hpc : w.pump.pc = .replayingFetch index (event :: rest) nextAfter)
    {s : Subscriber} (hs : w.pump.subs.list[index]? = some s) :
    (match s.state.pushRunStep event with
      | .shown sub => (w.onSub index fun _ => sub).goto (.replayingFetch index rest nextAfter)
      | .stalled => w.goto .loopHead
      | .closed => (w.onSub index fun sub => { sub with closed := true }).goto
          .loopHead).Inv config := by
  have hok := h.pc
  simp only [PcOk, hpc] at hok
  obtain ⟨hsettled, hrun⟩ := hok
  obtain ⟨hc, hm, hrest⟩ := hrun s hs
  have hfront := front_of_pc hpc (by simp)
  have hfollow := h.subs s (List.mem_of_getElem? hs)
  cases hstep : s.state.pushRunStep event with
  | shown sub =>
      obtain ⟨hsub, hc', hm', hrest', _⟩ := hfollow.pushRunStep h.ordered hc hm hrest.symm hstep
      refine h.onSub hfront (by simp) (fun t ht => ?_) ⟨hsettled, fun t ht => ?_⟩
      · obtain rfl : s = t := Option.some.inj (hs.symm.trans ht)
        exact hsub
      · obtain ⟨_, _, rfl⟩ := getElem?_onSub ht
        exact ⟨hc', hm', hrest'.symm⟩
  | stalled => exact h.goto _ hfront (by simp) (by simp [PcOk, World.goto])
  | closed =>
      refine h.onSub hfront (by simp) (fun t ht => ?_) (by simp [PcOk, World.goto])
      exact (h.subs t (List.mem_of_getElem? ht)).close h.ordered

/-- A fetch replayed to its end lets its subscriber cross what it left empty. -/
theorem inv_replayedFetch (h : w.Inv config) {index : Nat} {nextAfter : Cursor}
    (hpc : w.pump.pc = .replayingFetch index [] nextAfter) :
    ((w.onSub index fun sub => { sub with cursor := max sub.cursor nextAfter }).goto
      .loopHead).Inv config := by
  have hok := h.pc
  simp only [PcOk, hpc] at hok
  obtain ⟨hsettled, hrun⟩ := hok
  refine h.onSub (front_of_pc hpc (by simp)) (by simp) (fun s hs => ?_) (by simp [PcOk, World.goto])
  obtain ⟨_, hm, hrest⟩ := hrun s hs
  exact (h.subs s (List.mem_of_getElem? hs)).cross h.ordered hm hsettled hrest.symm

/-- The turn goes to a subscriber that needs a fetch. -/
theorem pickTurn_needsFetch {rotor : Nat} {ringFloor edge : Cursor} (subs : List Subscriber)
    (index : Nat) (best : Option (Nat × Nat)) {b : Nat × Nat}
    (h : pickTurn rotor ringFloor edge subs index best = some b) :
    best = some b ∨ ∃ k s, subs[k]? = some s ∧ b.1 = index + k ∧
      s.state.needsFetch ringFloor edge := by
  induction subs generalizing index best with
  | nil => exact .inl h
  | cons sub rest ih =>
      rcases ih _ _ h with hbest | ⟨k, s, hk, hb, hn⟩
      · have here : some (index, sub.state.id) = some b → sub.state.needsFetch ringFloor edge →
            best = some b ∨ ∃ k s, (sub :: rest)[k]? = some s ∧ b.1 = index + k ∧
              s.state.needsFetch ringFloor edge := by
          intro heq hn
          exact .inr ⟨0, sub, rfl, by rw [← Option.some.inj heq]; rfl, hn⟩
        split at hbest
        next hn =>
            split at hbest
            · exact here hbest hn
            · split at hbest
              · exact here hbest hn
              · exact .inl hbest
        next => exact .inl hbest
      · exact .inr ⟨k + 1, s, hk, by omega, hn⟩

theorem needsFetch_open {sub : SubState} {ringFloor edge : Cursor}
    (h : sub.needsFetch ringFloor edge) : sub.closed = false ∧ sub.mode = .catchingUp := by
  unfold SubState.needsFetch at h
  split at h
  · cases h
  next hopen =>
      cases hm : sub.mode with
      | live => simp [hm] at h
      | catchingUp =>
          simp only [Bool.or_eq_true, not_or, Bool.not_eq_true] at hopen
          exact ⟨hopen.1, rfl⟩

theorem inv_chosen (h : w.Inv config) (hpc : w.pump.pc = .choosing) {edge : Cursor}
    {index : Nat} {subs : Subscribers}
    (hnext : w.pump.subs.nextFetch w.pump.ring.floor edge = some (index, subs)) :
    ({ w with pump := { w.pump with subs } }.goto (.awaitCatchUp index)).Inv config := by
  obtain ⟨b, hpick, heq⟩ := Option.map_eq_some_iff.mp hnext
  obtain ⟨rfl, rfl⟩ := Prod.mk.inj heq
  have hcatch := h.goto (.awaitCatchUp b.1) (front_of_pc hpc (by simp)) (by simp) (by
    intro s hs
    rcases pickTurn_needsFetch _ _ _ hpick with hnone | ⟨k, t, hk, hb, hn⟩
    · cases hnone
    · rw [hb, Nat.zero_add] at hs
      obtain rfl : t = s := Option.some.inj (hk.symm.trans hs)
      exact needsFetch_open hn)
  exact ⟨hcatch.capacity, hcatch.ordered, hcatch.known, hcatch.ring, hcatch.subs, hcatch.ended,
    hcatch.pc⟩

theorem inv_tick (h : w.Inv config) {w' : World} (hstep : w.tick = some w') :
    w'.Inv config := by
  unfold tick at hstep
  split at hstep
  next hpc => cases hstep; exact inv_retainLive h (front_of_pc hpc (by simp))
  next hpc => cases hstep; exact inv_fanOut h hpc
  next hpc => cases hstep; exact inv_fannedOut h hpc
  next index edge hpc hedge =>
      split at hstep
      · cases hstep
        exact h.goto _ (front_of_pc hpc (by simp)) (by simp) ⟨edge, hedge⟩
      next s hs =>
          have hserve := inv_serveRing h hpc hedge hs
          split at hstep <;> next heq =>
            cases hstep
            simpa only [heq] using hserve
  next hpc =>
      obtain ⟨s, hs, rfl⟩ := Option.map_eq_some_iff.mp hstep
      exact inv_replayRing h hpc hs
  next hpc => cases hstep; exact inv_replayedRing h hpc
  next edge hpc _ =>
      split at hstep
      · cases hstep
        exact h.goto _ (front_of_pc hpc (by simp)) (by simp) (by simp [PcOk, World.goto])
      next hnext => cases hstep; exact inv_chosen h hpc hnext
  next hpc =>
      obtain ⟨s, hs, rfl⟩ := Option.map_eq_some_iff.mp hstep
      exact inv_replayFetch h hpc hs
  next hpc => cases hstep; exact inv_replayedFetch h hpc
  next => cases hstep

/-- Every step of the pump and of its surroundings preserves the invariant. -/
theorem inv_step (h : w.Inv config) (a : Action) {w' : World}
    (hnext : World.Next config w a w') : w'.Inv config := by
  obtain ⟨honours, hstep⟩ := hnext
  cases a with
  | append event => cases hstep; exact inv_append h event honours
  | receive id => cases hstep; exact inv_receive h id
  | dropReceiver id => cases hstep; exact inv_dropReceiver h id
  | unpark id => cases hstep; exact inv_unpark h id
  | tick => exact inv_tick h hstep
  | fetched answer => exact inv_fetched h honours hstep
  | command c =>
      cases c with
      | subscribe position filter =>
          simp only [step] at hstep
          split at hstep <;> first
            | cases hstep; done
            | next hpc => cases hstep; exact inv_subscribe h (front_of_pc hpc (by simp)) _ _
      | shutdown =>
          simp only [step] at hstep
          split at hstep <;> first
            | cases hstep; done
            | next hpc => cases hstep; exact inv_exit h (front_of_pc hpc (by simp))
  | commandsClosed =>
      simp only [step] at hstep
      split at hstep <;> cases hstep
      next hpc => exact inv_exit h (front_of_pc hpc (by simp))
  | idleTimeout =>
      simp only [step] at hstep
      split at hstep <;> cases hstep
      next hpc => exact inv_exit h (front_of_pc hpc.1 (by simp))
  | noCommand =>
      simp only [step] at hstep
      split at hstep <;> cases hstep
      next hpc hedge => exact h.goto _ (front_of_pc hpc (by simp)) (by simp) hedge
      next edge hpc hedge => exact h.goto _ (front_of_pc hpc (by simp)) (by simp) hedge
  | liveStart answer =>
      cases answer with
      | ok start =>
          simp only [step] at hstep
          split at hstep <;> cases hstep
          next hpc => exact inv_liveStart h hpc start
      | error e =>
          simp only [step] at hstep
          split at hstep <;> cases hstep
          next hpc => exact inv_liveError h (front_of_pc hpc (by simp)) e (.inl rfl)

theorem inv_start {w : World} (hcapacity : 0 < config.queueCapacity)
    (hw : World.Spawned config w) : w.Inv config := by
  have hord := hw.ascending
  have hbelow := hw.below
  have hstart := hw.start
  generalize hlog : w.log = log at hord hbelow hstart
  generalize w.settled = settled at hbelow hstart
  subst hstart
  exact ⟨hcapacity, ⟨hord, hbelow⟩, by simp [start], rfl, by simp [start], by simp [start],
    trivial⟩

theorem Reached.inv (hcapacity : 0 < config.queueCapacity) {w : World}
    (h : World.Reached config w) : w.Inv config :=
  h.invariant (fun _ hw => inv_start hcapacity hw) fun _ a _ hw hnext => inv_step hw a hnext

theorem Inv.delivered (h : w.Inv config) {s : Subscriber}
    (hs : s ∈ w.pump.subs.list ++ w.ended) : Delivered w.view s := by
  rcases List.mem_append.mp hs with hs | hs
  · exact (h.subs s hs).delivered h.ordered
  · exact h.ended s hs

end Odradek.Web.World
