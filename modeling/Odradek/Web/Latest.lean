import Odradek.Web.ExactDelivery

/-!
Where `Latest` starts. A subscription is promised "only records produced from
now on", and starts after the live edge the pump remembers. The edge is moved
by live fetches only, so it may lie behind the log: what the pump has not read
yet, or what arrived while nobody was subscribed, is then delivered as new.
-/

namespace Odradek.Web

open Library

/-- What a subscription was opened with. -/
structure SameOrigin (s t : Subscriber) : Prop where
  position : t.position = s.position
  edge : t.edge = s.edge
  held : t.held = s.held
  filter : t.state.filter = s.state.filter

theorem SameOrigin.refl (s : Subscriber) : SameOrigin s s := ⟨rfl, rfl, rfl, rfl⟩

section Filter

variable (sub : SubState)

theorem SubState.pushLive_filter (event : Event) : (sub.pushLive event).filter = sub.filter := by
  unfold SubState.pushLive
  split
  · rfl
  · split
    · rfl
    · split <;> rfl

theorem SubState.pushRunStep_filter {sub sub' : SubState} {event : Event}
    (h : sub.pushRunStep event = .shown sub') : sub'.filter = sub.filter := by
  unfold SubState.pushRunStep at h
  split at h
  · split at h <;> cases h
    rfl
  · cases h
    rfl

theorem SubState.advanceFromRing_filter (ring : Ring) (edge : Cursor) :
    (sub.advanceFromRing ring edge).1.filter = sub.filter := by
  rcases World.advanceFromRing_cases sub ring edge with heq | ⟨_, _, heq⟩ | ⟨_, _, _, _, heq⟩ <;>
    rw [heq]

theorem SubState.catchUpFailed_filter (config : PumpConfig) (e : SourceError) :
    (sub.catchUpFailed config e).filter = sub.filter := by
  simp only [SubState.catchUpFailed]
  split <;> rfl

end Filter

def World.subscribers (w : World) : List Subscriber := w.pump.subs.list ++ w.ended

/-- A step that opens no subscription and leaves the log and the answer of
`live_start` alone. -/
structure World.Quiet (w w' : World) : Prop where
  keeps : ∀ t ∈ w'.subscribers, ∃ s ∈ w.subscribers, SameOrigin s t
  log : w'.log = w.log
  liveStart : w'.liveStart = w.liveStart

namespace World

variable {config : PumpConfig} {w w' w'' : World}

theorem Quiet.trans (h : w.Quiet w') (h' : w'.Quiet w'') : w.Quiet w'' where
  keeps u hu := by
    obtain ⟨t, ht, htu⟩ := h'.keeps u hu
    obtain ⟨s, hs, hst⟩ := h.keeps t ht
    exact ⟨s, hs, htu.position.trans hst.position, htu.edge.trans hst.edge,
      htu.held.trans hst.held, htu.filter.trans hst.filter⟩
  log := h'.log.trans h.log
  liveStart := h'.liveStart.trans h.liveStart

theorem quiet_of_subset (hsubs : ∀ t ∈ w'.subscribers, t ∈ w.subscribers)
    (hlog : w'.log = w.log) (hlive : w'.liveStart = w.liveStart) : w.Quiet w' :=
  ⟨fun t ht => ⟨t, hsubs t ht, .refl t⟩, hlog, hlive⟩

theorem quiet_goto (pc : Pc) : w.Quiet (w.goto pc) := quiet_of_subset (fun _ => id) rfl rfl

theorem quiet_withList (list : List Subscriber) (pc : Pc)
    (hlist : ∀ t ∈ list, ∃ s ∈ w.pump.subs.list, SameOrigin s t) :
    w.Quiet ((w.withList list).goto pc) where
  keeps t ht := by
    rcases List.mem_append.mp ht with ht | ht
    · obtain ⟨s, hs, hsame⟩ := hlist t ht
      exact ⟨s, List.mem_append_left _ hs, hsame⟩
    · exact ⟨t, List.mem_append_right _ ht, .refl t⟩
  log := rfl
  liveStart := rfl

theorem quiet_onSub {index : Nat} {f : SubState → SubState} {pc : Pc}
    (hf : ∀ s, w.pump.subs.list[index]? = some s → (f s.state).filter = s.state.filter) :
    w.Quiet ((w.onSub index f).goto pc) := by
  refine quiet_withList _ pc (forall_modify ?_ ?_)
  · exact fun t ht => ⟨t, ht, .refl t⟩
  · exact fun s hs => ⟨s, List.mem_of_getElem? hs, rfl, rfl, rfl, hf s hs⟩

theorem quiet_onChannel (id : Nat) (f : Channel → Channel) : w.Quiet (w.onChannel id f) where
  keeps t ht := by
    rw [subscribers, onChannel, ← List.map_append] at ht
    obtain ⟨s, hs, rfl⟩ := List.mem_map.mp ht
    exact ⟨s, hs, by split <;> exact ⟨rfl, rfl, rfl, rfl⟩⟩
  log := rfl
  liveStart := rfl

theorem quiet_exit : w.Quiet w.exit := by
  refine quiet_of_subset (fun t ht => ?_) rfl rfl
  simp only [subscribers, exit, withList, World.goto, List.nil_append, List.mem_append] at ht ⊢
  exact ht.symm

theorem quiet_failSubs (e : SourceError) : w.Quiet (w.failSubs e) := by
  have hfail := quiet_withList (w := w) (w.pump.subs.list.map fun s : Subscriber =>
    if s.state.closed then s else { s with state := s.state.fail e }) .loopHead (by
      intro t ht
      obtain ⟨s, hs, rfl⟩ := List.mem_map.mp ht
      exact ⟨s, hs, by split <;> exact ⟨rfl, rfl, rfl, rfl⟩⟩)
  have hexit := hfail.trans quiet_exit
  exact hexit

theorem quiet_retainLive : w.Quiet w.retainLive := by
  refine quiet_of_subset (fun t ht => ?_) rfl rfl
  simp only [subscribers, retainLive, withList, World.goto, List.mem_append,
    List.mem_filter] at ht ⊢
  tauto

theorem quiet_liveError (e : SourceError) (retry : Pc) :
    w.Quiet (w.liveError config e retry) := by
  have hcount : w.Quiet { w with pump := { w.pump with
      consecutiveErrors := w.pump.consecutiveErrors + 1 } } :=
    quiet_of_subset (fun _ => id) rfl rfl
  simp only [liveError]
  split
  · exact hcount.trans (quiet_failSubs e)
  · exact hcount.trans (quiet_goto retry)

theorem quiet_fetched {answer : Except SourceError SourceBatch}
    (hstep : w.fetched config answer = some w') : w.Quiet w' := by
  cases answer with
  | ok batch =>
      have hsettle : w.Quiet { w with settled := max w.settled batch.nextAfter } :=
        quiet_of_subset (fun _ => id) rfl rfl
      simp only [fetched] at hstep
      split at hstep
      · cases hstep
        exact quiet_of_subset (fun _ => id) rfl rfl
      · obtain ⟨s, _, rfl⟩ := Option.map_eq_some_iff.mp hstep
        exact hsettle.trans (quiet_onSub fun _ _ => rfl)
      · cases hstep
  | error e =>
      simp only [fetched] at hstep
      split at hstep
      · cases hstep
        exact quiet_liveError _ _
      · split at hstep <;> cases hstep
        · exact quiet_failSubs _
        · exact quiet_onSub fun s _ => s.state.catchUpFailed_filter config e
      · cases hstep

private theorem quiet_pushRun {index : Nat} {s : Subscriber} {event : Event}
    {onward stalled closed : Pc} (hs : w.pump.subs.list[index]? = some s) :
    w.Quiet (match s.state.pushRunStep event with
      | .shown sub => (w.onSub index fun _ => sub).goto onward
      | .stalled => w.goto stalled
      | .closed => (w.onSub index fun sub => { sub with closed := true }).goto closed) := by
  cases hstep : s.state.pushRunStep event with
  | shown sub =>
      refine quiet_onSub fun t ht => ?_
      obtain rfl : s = t := Option.some.inj (hs.symm.trans ht)
      exact SubState.pushRunStep_filter hstep
  | stalled => exact quiet_goto _
  | closed => exact quiet_onSub fun _ _ => rfl

theorem quiet_tick (hstep : w.tick = some w') : w.Quiet w' := by
  unfold tick at hstep
  split at hstep
  next => cases hstep; exact quiet_retainLive
  next cursor pushed event rest nextAfter _ =>
      cases hstep
      have hpushed := quiet_withList (w := w) (w.pump.subs.list.map fun s : Subscriber =>
        { s with state := s.state.pushLive event }) .loopHead (by
          intro t ht
          obtain ⟨s, hs, rfl⟩ := List.mem_map.mp ht
          exact ⟨s, hs, rfl, rfl, rfl, s.state.pushLive_filter event⟩)
      exact ⟨hpushed.keeps, rfl, rfl⟩
  next => cases hstep; exact quiet_of_subset (fun _ => id) rfl rfl
  next =>
      split at hstep
      · cases hstep; exact quiet_goto _
      next s hs =>
          split at hstep <;> cases hstep
          next sub heq =>
              refine quiet_onSub fun t ht => ?_
              obtain rfl : s = t := Option.some.inj (hs.symm.trans ht)
              rw [← s.state.advanceFromRing_filter w.pump.ring, heq]
          next => exact quiet_goto _
  next =>
      obtain ⟨s, hs, rfl⟩ := Option.map_eq_some_iff.mp hstep
      exact quiet_pushRun hs
  next => cases hstep; exact quiet_onSub fun _ _ => rfl
  next =>
      split at hstep
      · cases hstep; exact quiet_goto _
      next hnext =>
          cases hstep
          obtain ⟨_, _, heq⟩ := Option.map_eq_some_iff.mp hnext
          cases heq
          exact quiet_of_subset (fun _ => id) rfl rfl
  next =>
      obtain ⟨s, hs, rfl⟩ := Option.map_eq_some_iff.mp hstep
      exact quiet_pushRun hs
  next => cases hstep; exact quiet_onSub fun _ _ => rfl
  next => cases hstep

/-- The three steps that are not quiet: the log grows, a subscription opens,
the source says where "now" is. -/
theorem step_cases {a : Action} (hstep : w.step config a = some w') :
    w.Quiet w' ∨
    (∃ event, a = .append event ∧ w' =
    { w with log := w.log ++ [event], settled := event.offset }) ∨
    (∃ position filter, a = .command (.subscribe position filter) ∧
      w' = (w.subscribe config position filter).goto .draining) ∨
    (∃ start, a = .liveStart (.ok start) ∧ w.pump.pc = .awaitLiveStart ∧
      w'.subscribers = w.subscribers ∧ w'.log = w.log ∧ w'.liveStart = .at start) := by
  cases a with
  | append event => cases hstep; exact .inr (.inl ⟨event, rfl, rfl⟩)
  | receive id | dropReceiver id | unpark id => cases hstep; exact .inl (quiet_onChannel _ _)
  | tick => exact .inl (quiet_tick hstep)
  | fetched answer => exact .inl (quiet_fetched hstep)
  | command c =>
      cases c with
      | subscribe position filter =>
          simp only [step] at hstep
          split at hstep <;> cases hstep <;>
            exact .inr (.inr (.inl ⟨position, filter, rfl, rfl⟩))
      | shutdown =>
          simp only [step] at hstep
          split at hstep <;> cases hstep <;> exact .inl quiet_exit
  | commandsClosed | idleTimeout =>
      simp only [step] at hstep
      split at hstep <;> cases hstep
      exact .inl quiet_exit
  | noCommand =>
      simp only [step] at hstep
      split at hstep <;> cases hstep <;> exact .inl (quiet_goto _)
  | liveStart answer =>
      cases answer with
      | ok start =>
          simp only [step] at hstep
          split at hstep <;> cases hstep
          next hpc => exact .inr (.inr (.inr ⟨start, rfl, hpc, rfl, rfl, rfl⟩))
      | error e =>
          simp only [step] at hstep
          split at hstep <;> cases hstep
          exact .inl (quiet_liveError _ _)

/-- A `Latest` subscription is handled with the live edge still to be asked
for, or with no entry it would be shown past the edge already. -/
def AtEdge (w : World) : Action → Prop
  | .command (.subscribe .latest filter) =>
    match w.pump.liveEdge with
    | .unknown => True
    | .at edge => ∀ e ∈ w.log, filter.matchesEvent e → (e.offset : Cursor) ≤ edge
  | _ => True

instance (w : World) (a : Action) : Decidable (w.AtEdge a) :=
  match a with
  | .command (.subscribe .latest filter) =>
    match h : w.pump.liveEdge with
    | .unknown => isTrue (by simp [AtEdge, h])
    | .at edge =>
      decidable_of_iff (∀ e ∈ w.log, filter.matchesEvent e → (e.offset : Cursor) ≤ edge)
        (by simp [AtEdge, h])
  | .command (.subscribe .earliest _) | .command (.subscribe (.after _) _) | .command .shutdown
  | .append _ | .receive _ | .dropReceiver _ | .unpark _ | .commandsClosed | .noCommand
  | .idleTimeout | .liveStart _ | .fetched _ | .tick => isTrue trivial

/-- The runs in which every `Latest` subscription meets the edge. -/
abbrev ReachedAtEdge (config : PumpConfig) : World → Prop :=
  Reachable (Spawned config) fun w a w' => (w.AtEdge a ∧ w.Honours a) ∧ w.step config a = some w'

theorem ReachedAtEdge.reached (h : ReachedAtEdge config w) : Reached config w :=
  h.mono fun _ _ _ hstep => ⟨hstep.1.2, hstep.2⟩

/-- What a `Latest` subscription found in the log is behind its start. -/
structure HeldBehind (w : World) (s : Subscriber) : Prop where
  held : ∀ e ∈ s.held, e ∈ w.log
  behind : s.position = .latest → ∀ start, s.resolvedStart w.liveStart = some start →
    ∀ e ∈ s.held, s.state.filter.matchesEvent e → (e.offset : Cursor) ≤ start

theorem heldBehind_quiet (hq : w.Quiet w') (h : ∀ s ∈ w.subscribers, w.HeldBehind s) :
    ∀ t ∈ w'.subscribers, w'.HeldBehind t := by
  intro t ht
  obtain ⟨s, hs, hsame⟩ := hq.keeps t ht
  have hstart : t.resolvedStart w'.liveStart = s.resolvedStart w.liveStart := by
    simp only [Subscriber.resolvedStart, hsame.position, hsame.edge, hq.liveStart]
  refine ⟨?_, ?_⟩
  · rw [hsame.held, hq.log]
    exact (h s hs).held
  · rw [hsame.position, hstart, hsame.held, hsame.filter]
    exact (h s hs).behind

/-- A new `Latest` subscription has nothing to be shown of the log as it stands. -/
theorem heldBehind_subscribe {position : Position} {filter : Filter}
    (hedge : w.AtEdge (.command (.subscribe position filter)))
    (hlog : ∀ start, w.liveStart = .at start → w.pump.liveEdge ≠ .unknown)
    (h : ∀ s ∈ w.subscribers, w.HeldBehind s) :
    ∀ t ∈ ((w.subscribe config position filter).goto .draining).subscribers,
      ((w.subscribe config position filter).goto .draining).HeldBehind t := by
  intro t ht
  simp only [subscribers, subscribe, World.goto, List.mem_append, List.mem_singleton] at ht
  have old : ∀ s ∈ w.subscribers,
      ((w.subscribe config position filter).goto .draining).HeldBehind s :=
    fun s hs => ⟨(h s hs).held, (h s hs).behind⟩
  rcases ht with (ht | rfl) | ht
  · exact old t (List.mem_append_left _ ht)
  · refine ⟨fun e he => he, ?_⟩
    rintro rfl start hstart e he hm
    simp only [AtEdge] at hedge
    cases hl : w.pump.liveEdge with
    | unknown =>
        simp only [Subscriber.resolvedStart, hl] at hstart
        cases hs : w.liveStart with
        | unknown => simp [subscribe, World.goto, hs] at hstart
        | «at» p => exact absurd hl (hlog p hs)
    | «at» edge =>
        simp only [Subscriber.resolvedStart, hl, Option.some.injEq] at hstart
        simp only [hl] at hedge
        exact hstart ▸ hedge e he hm
  · exact old t (List.mem_append_right _ ht)

/-- Whatever a `Latest` subscription found in the log stays behind its start. -/
theorem ReachedAtEdge.heldBehind (hcapacity : 0 < config.queueCapacity)
    (h : ReachedAtEdge config w) : ∀ s ∈ w.subscribers, w.HeldBehind s := by
  refine h.invariant_under (I := fun w => w.Inv config) (P := fun w =>
    ∀ s ∈ w.subscribers, w.HeldBehind s) ?_ ?_ ?_
  · exact fun w hw => Reached.inv hcapacity (ReachedAtEdge.reached hw)
  · intro w hw s hs
    rw [hw.start] at hs
    cases hs
  · rintro w a w' hinv hheld ⟨⟨hedge, honours⟩, hstep⟩
    rcases step_cases hstep with hq | ⟨event, rfl, rfl⟩ | ⟨position, filter, rfl, rfl⟩ |
      ⟨start, rfl, hpc, hsubs, hlog, hlive⟩
    · exact heldBehind_quiet hq hheld
    · exact fun s hs => ⟨fun e he => List.mem_append_left _ ((hheld s hs).held e he),
        (hheld s hs).behind⟩
    · refine heldBehind_subscribe hedge (fun start hs hu => ?_) hheld
      rw [hinv.known.mpr hu] at hs
      cases hs
    · -- Those waiting for the answer hold nothing past it; the others have their
      -- start already.
      have hunknown : w.liveStart = .unknown := hinv.known.mpr (by
        have := hinv.pc
        simpa only [PcOk, hpc] using this)
      intro s hs
      rw [hsubs] at hs
      refine ⟨hlog ▸ (hheld s hs).held, fun hp p hresolved e he hm => ?_⟩
      rw [hlive] at hresolved
      have hbehind := (hheld s hs).behind hp
      rw [hunknown] at hbehind
      cases hr : s.resolvedStart .unknown with
      | none =>
          rw [resolvedStart_waiting hr] at hresolved
          exact Option.some.inj hresolved ▸ honours e ((hheld s hs).held e he)
      | some q =>
          rw [resolvedStart_at hr] at hresolved
          exact Option.some.inj hresolved ▸ hbehind q hr e he hm

/-- In every run in which `Latest` subscriptions meet the edge, none is shown
an event that was in the log when it was opened. -/
theorem ReachedAtEdge.latest_only_new (h : ReachedAtEdge config w)
    (hcapacity : 0 < config.queueCapacity) {s : Subscriber} (hs : s ∈ w.pump.subs.list ++ w.ended)
    (hposition : s.position = .latest) :
    ∀ e ∈ s.held, StreamItem.event e ∉ s.state.sender.sent := by
  intro e he hsent
  have hheld := ReachedAtEdge.heldBehind hcapacity h s hs
  have hinv := Reached.inv hcapacity h.reached
  obtain ⟨events, errors, heq, _, hstart⟩ := hinv.delivered hs
  have hmem : e ∈ events := by
    rw [heq] at hsent
    simpa using hsent
  cases hr : s.resolvedStart w.view.liveStart with
  | none =>
      simp only [hr] at hstart
      simp [hstart] at hmem
  | some start =>
      simp only [hr] at hstart
      obtain ⟨hafter, hm⟩ := List.mem_filter.mp (hstart.mem hmem)
      exact absurd (mem_after.mp hafter).2 (not_lt.mpr (hheld.behind hposition start hr e he hm))

end World

namespace NewReader

open StalledReader (config record)

/-- The log holds a record already; the reader is shown the next one. -/
def actions : List Action :=
  [.tick, .command (.subscribe .latest .default), .noCommand, .liveStart (.ok (3 : Int)),
    .append (record 8), .fetched (.ok { events := [record 8], nextAfter := (8 : Int) }), .tick]

def start : World := World.start config [record 3] (3 : Int)

def world : World :=
  (runActions (fun w a => w.AtEdge a ∧ w.Honours a) (World.step config) start actions).getD start

theorem spawned : World.Spawned config start where
  ascending := List.pairwise_singleton _ _
  below := by decide
  start := rfl

theorem reached : World.ReachedAtEdge config world := .of_run actions (.start spawned) rfl

end NewReader

theorem World.ReachedAtEdge.latest_only_new_reader :
    NewReader.world.pump.subs.list.map (fun s => (s.held, s.state.sender.sent)) =
      [([StalledReader.record 3], [.event (StalledReader.record 8)])] ∧
    ∀ s ∈ NewReader.world.pump.subs.list ++ NewReader.world.ended, s.position = .latest →
      ∀ e ∈ s.held, StreamItem.event e ∉ s.state.sender.sent :=
  ⟨by decide, fun _ hs hp => NewReader.reached.latest_only_new (by decide) hs hp⟩

namespace PausedPump

open StalledReader (config record)

/-- A first `Latest` reader leaves, a record arrives while the pump idles, and
a second `Latest` reader is shown it. -/
def actions : List Action :=
  [.tick, .command (.subscribe .latest .default), .noCommand, .liveStart (.ok ⊥),
    .fetched (.ok { events := [], nextAfter := ⊥ }), .tick, .tick, .tick, .tick,
    .dropReceiver 0, .tick, .append (record 3),
    .command (.subscribe .latest .default), .noCommand,
    .fetched (.ok { events := [record 3], nextAfter := (3 : Int) }), .tick]

def world : World :=
  (runActions World.Honours (World.step config) (World.start config [] ⊥) actions).getD
    (World.start config [] ⊥)

theorem reached : World.Reached config world :=
  .of_run actions (.start (World.Spawned.empty config)) rfl

end PausedPump

/-- `Latest` can be shown the past. -/
theorem World.not_latest_only_new :
    ¬ ∀ (config : PumpConfig) (w : World), 0 < config.queueCapacity → World.Reached config w →
      ∀ s ∈ w.pump.subs.list ++ w.ended, s.position = .latest →
        ∀ e ∈ s.held, StreamItem.event e ∉ s.state.sender.sent := by
  intro h
  have hpast := h StalledReader.config PausedPump.world (by decide) PausedPump.reached
  revert hpast
  decide

end Odradek.Web
