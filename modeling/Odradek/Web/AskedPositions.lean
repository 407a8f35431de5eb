import Odradek.Library.Reachable
import Odradek.Web.PumpTicks
import Odradek.Web.Sources

/-!
Which positions a pump asks its source to fetch after. A client may subscribe
after any position at all; what is asked is the live edge, or lies below it, so
on a log below `i64::MAX` the successor a source computes is always there.
-/

namespace Odradek.Web

open Library

/-- The log stays below `i64::MAX`: its entries, and the positions of it that
its source hands out. -/
def World.Below : Action → Prop
  | .append event => event.offset < i64Max
  | .liveStart (.ok start) => start < (i64Max : Cursor)
  | .fetched (.ok batch) => batch.nextAfter < (i64Max : Cursor)
  | _ => True

instance (a : Action) : Decidable (World.Below a) :=
  match a with
  | .append event => inferInstanceAs (Decidable (event.offset < i64Max))
  | .liveStart (.ok start) => inferInstanceAs (Decidable (start < (i64Max : Cursor)))
  | .fetched (.ok batch) => inferInstanceAs (Decidable (batch.nextAfter < (i64Max : Cursor)))
  | .receive _ | .dropReceiver _ | .unpark _ | .command _ | .commandsClosed | .noCommand
  | .idleTimeout | .liveStart (.error _) | .fetched (.error _) | .tick => isTrue trivial

theorem KafkaSource.fetch_below {consumer : Answers} {topic : String} {partition : Int}
    {after : Cursor} {answer : Except SourceError SourceBatch}
    (h : fetch consumer topic partition after = some answer) : World.Below (.fetched answer) := by
  cases answer with
  | error e => trivial
  | ok batch => exact fetch_nextAfter h

theorem KafkaSource.liveStart_below (consumer : Answers) :
    World.Below (.liveStart (liveStart consumer)) := by
  cases h : liveStart consumer with
  | error e => trivial
  | ok edge => exact liveStart_lt h

theorem MemorySource.fetch_below {log : MemoryLog} {topic : String} {index : Int}
    {after : Cursor} {answer : Except SourceError SourceBatch} (below : Below log)
    (h : fetch log topic index after = some answer) : World.Below (.fetched answer) := by
  cases answer with
  | error e => trivial
  | ok batch => exact fetch_nextAfter below h

theorem MemorySource.liveStart_below {log : MemoryLog} (below : Below log) (index : Int) :
    World.Below (.liveStart (liveStart log index)) := by
  cases h : liveStart log index with
  | error e => trivial
  | ok edge => exact liveStart_lt below h

namespace World

variable {config : PumpConfig} {w w' : World}

/-- A pump just spawned over a log below `i64::MAX`. -/
structure SpawnedBelow (config : PumpConfig) (w : World) : Prop where
  below : ∀ e ∈ w.log, e.offset < i64Max
  start : w = World.start config w.log w.settled

abbrev ReachedBelow (config : PumpConfig) : World → Prop :=
  Reachable (SpawnedBelow config) fun w a w' => Below a ∧ w.step config a = some w'

/-- What the control points that ask the source, or have its answer, rely on. -/
def PcAsks (w : World) : Prop :=
  match w.pump.pc with
  | .awaitLiveFetch cursor => w.pump.liveEdge = .at cursor
  | .fanningOut cursor _ _ nextAfter =>
    w.pump.liveEdge = .at cursor ∧ nextAfter < (i64Max : Cursor)
  | .awaitCatchUp index => ∃ edge, w.pump.liveEdge = .at edge ∧
      ∀ s, w.pump.subs.list[index]? = some s → s.state.cursor < edge
  | _ => True

structure Asking (w : World) : Prop where
  edge : ∀ edge, w.pump.liveEdge = .at edge → edge < (i64Max : Cursor)
  pc : w.PcAsks

def AsksNothing : Pc → Prop
  | .awaitLiveFetch _ | .fanningOut _ _ _ _ | .awaitCatchUp _ => False
  | _ => True

theorem Asking.quiet (h : w.Asking) (edge : w'.pump.liveEdge = w.pump.liveEdge)
    (pc : AsksNothing w'.pump.pc) : w'.Asking := by
  refine ⟨fun e he => h.edge e (edge ▸ he), ?_⟩
  cases hpc : w'.pump.pc with
  | awaitLiveFetch | fanningOut | awaitCatchUp =>
      rw [hpc] at pc
      cases pc
  | _ => simp [PcAsks, hpc]

/-- Changing channels moves no cursor. -/
theorem Asking.onChannel (h : w.Asking) (id : Nat) (f : Channel → Channel) :
    (w.onChannel id f).Asking := by
  refine ⟨h.edge, ?_⟩
  have hok := h.pc
  cases hpc : w.pump.pc with
  | awaitLiveFetch | fanningOut => simpa [PcAsks, World.onChannel, hpc] using hok
  | awaitCatchUp index =>
      simp only [PcAsks, hpc] at hok
      obtain ⟨edge, hedge, hbehind⟩ := hok
      simp only [PcAsks, World.onChannel, hpc]
      refine ⟨edge, hedge, fun s hs => ?_⟩
      rw [List.getElem?_map] at hs
      obtain ⟨s₀, hs₀, rfl⟩ := Option.map_eq_some_iff.mp hs
      split
      · exact hbehind s₀ hs₀
      · exact hbehind s₀ hs₀
  | _ => simp [PcAsks, World.onChannel, hpc]

theorem asking_retainLive (h : w.Asking) : w.retainLive.Asking := by
  refine h.quiet rfl ?_
  simp only [retainLive, World.goto]
  split <;> trivial

theorem asking_liveError (h : w.Asking) (e : SourceError) {retry : Pc} (quiet : AsksNothing retry) :
    (w.liveError config e retry).Asking := by
  simp only [liveError]
  split
  · exact h.quiet rfl trivial
  · exact h.quiet rfl quiet

theorem needsFetch_behind {sub : SubState} {ringFloor edge : Cursor}
    (h : sub.needsFetch ringFloor edge) : sub.cursor < edge := by
  unfold SubState.needsFetch at h
  split at h
  · cases h
  next =>
      cases hm : sub.mode with
      | live => simp [hm] at h
      | catchingUp =>
          simp only [hm, Bool.and_eq_true, decide_eq_true_eq] at h
          exact h.1

/-- The turn goes to a subscriber behind the edge. -/
theorem asking_chosen (h : w.Asking) {edge : Cursor} (hedge : w.pump.liveEdge = .at edge)
    {index : Nat} {subs : Subscribers}
    (hnext : w.pump.subs.nextFetch w.pump.ring.floor edge = some (index, subs)) :
    ({ w with pump := { w.pump with subs } }.goto (.awaitCatchUp index)).Asking := by
  obtain ⟨b, hpick, heq⟩ := Option.map_eq_some_iff.mp hnext
  obtain ⟨rfl, rfl⟩ := Prod.mk.inj heq
  refine ⟨h.edge, edge, hedge, fun s hs => ?_⟩
  obtain hnone | ⟨k, t, hk, hb, hneeds⟩ := pickTurn_needsFetch _ _ _ hpick
  · cases hnone
  · obtain rfl : b.1 = k := by omega
    obtain rfl : t = s := Option.some.inj (hk.symm.trans hs)
    exact needsFetch_behind hneeds

theorem asking_tick (h : w.Asking) (hstep : w.tick = some w') : w'.Asking := by
  have hok := h.pc
  unfold tick at hstep
  split at hstep
  next =>
      cases hstep
      exact asking_retainLive h
  next hpc =>
      cases hstep
      simp only [PcAsks, hpc] at hok
      exact ⟨h.edge, hok⟩
  next hpc =>
      cases hstep
      simp only [PcAsks, hpc] at hok
      refine ⟨fun edge hedge => ?_, trivial⟩
      obtain rfl := LiveEdge.at.inj hedge
      exact max_lt hok.2 (h.edge _ hok.1)
  next index edge hpc hedge =>
      split at hstep
      · cases hstep
        exact h.quiet rfl trivial
      · split at hstep <;>
          · cases hstep
            exact h.quiet rfl trivial
  next =>
      obtain ⟨s, _, rfl⟩ := Option.map_eq_some_iff.mp hstep
      split <;> exact h.quiet rfl trivial
  next =>
      cases hstep
      exact h.quiet rfl trivial
  next edge hpc hedge =>
      split at hstep
      · cases hstep
        exact h.quiet rfl trivial
      next hnext =>
          cases hstep
          exact asking_chosen h hedge hnext
  next =>
      obtain ⟨s, _, rfl⟩ := Option.map_eq_some_iff.mp hstep
      split <;> exact h.quiet rfl trivial
  next =>
      cases hstep
      exact h.quiet rfl trivial
  next => cases hstep

theorem asking_fetched (h : w.Asking) {answer : Except SourceError SourceBatch}
    (below : Below (.fetched answer)) (hstep : w.fetched config answer = some w') :
    w'.Asking := by
  have hok := h.pc
  cases answer with
  | ok batch =>
      simp only [fetched] at hstep
      cases hpc : w.pump.pc with
      | awaitLiveFetch cursor =>
          simp only [hpc, Option.some.injEq] at hstep
          subst hstep
          simp only [PcAsks, hpc] at hok
          exact ⟨h.edge, hok, below⟩
      | awaitCatchUp index =>
          simp only [hpc] at hstep
          obtain ⟨s, _, rfl⟩ := Option.map_eq_some_iff.mp hstep
          exact h.quiet rfl trivial
      | _ => simp [hpc] at hstep
  | error e =>
      simp only [fetched] at hstep
      cases hpc : w.pump.pc with
      | awaitLiveFetch cursor =>
          simp only [hpc, Option.some.injEq] at hstep
          subst hstep
          exact asking_liveError h e trivial
      | awaitCatchUp index =>
          simp only [hpc] at hstep
          split at hstep <;>
            · cases hstep
              exact h.quiet rfl trivial
      | _ => simp [hpc] at hstep

/-- Whatever the pump does, it asks for its live edge or below. -/
theorem asking_step (h : w.Asking) (a : Action) (below : Below a)
    (hstep : w.step config a = some w') : w'.Asking := by
  cases a with
  | append event =>
      cases hstep
      exact ⟨h.edge, h.pc⟩
  | receive id | dropReceiver id | unpark id =>
      cases hstep
      exact h.onChannel id _
  | tick => exact asking_tick h hstep
  | fetched answer => exact asking_fetched h below hstep
  | command c =>
      cases c with
      | subscribe position filter =>
          simp only [step] at hstep
          split at hstep <;> cases hstep <;> exact h.quiet rfl trivial
      | shutdown =>
          simp only [step] at hstep
          split at hstep <;> cases hstep <;> exact h.quiet rfl trivial
  | commandsClosed | idleTimeout =>
      simp only [step] at hstep
      split at hstep <;> cases hstep
      exact h.quiet rfl trivial
  | noCommand =>
      simp only [step] at hstep
      split at hstep <;> cases hstep
      next => exact h.quiet rfl trivial
      next hedge => exact ⟨h.edge, hedge⟩
  | liveStart answer =>
      cases answer with
      | ok start =>
          simp only [step] at hstep
          split at hstep <;> cases hstep
          refine ⟨fun edge hedge => ?_, rfl⟩
          obtain rfl := LiveEdge.at.inj hedge
          exact below
      | error e =>
          simp only [step] at hstep
          split at hstep <;> cases hstep
          exact asking_liveError h e trivial

theorem ReachedBelow.asking (h : ReachedBelow config w) : w.Asking := by
  refine Reachable.invariant (fun w hw => ?_) (fun w a w' hw hnext => ?_) h
  · have hedge : w.pump.liveEdge = .unknown := by rw [hw.start]; rfl
    have hpc : w.pump.pc = .loopHead := by rw [hw.start]; rfl
    refine ⟨fun edge h => ?_, by simp [PcAsks, hpc]⟩
    rw [hedge] at h
    cases h
  · exact asking_step hw a hnext.1 hnext.2

/-- What is asked of the source is the live edge, or below it. -/
theorem Asking.asked (h : w.Asking) {after : Cursor} (hasked : w.asked = some after) :
    ∃ edge, w.pump.liveEdge = .at edge ∧ (after = edge ∨ after < edge) := by
  have hok := h.pc
  cases hpc : w.pump.pc with
  | awaitLiveFetch cursor =>
      simp only [World.asked, hpc, Option.some.injEq] at hasked
      simp only [PcAsks, hpc] at hok
      exact ⟨cursor, hok, .inl hasked.symm⟩
  | awaitCatchUp index =>
      simp only [World.asked, hpc] at hasked
      obtain ⟨s, hs, rfl⟩ := Option.map_eq_some_iff.mp hasked
      simp only [PcAsks, hpc] at hok
      obtain ⟨edge, hedge, hbehind⟩ := hok
      exact ⟨edge, hedge, .inr (hbehind s hs)⟩
  | _ => simp [World.asked, hpc] at hasked

/-- Whatever positions clients start after, a pump over a log below `i64::MAX`
asks for what follows its live edge or a position below it, and neither source
overflows on what it is asked. -/
theorem ReachedBelow.asked_fits (h : ReachedBelow config w) {after : Cursor}
    (hasked : w.asked = some after) :
    (∃ edge, w.pump.liveEdge = .at edge ∧ (after = edge ∨ after < edge)) ∧
    (∀ position : Int, after = position → successor position = some (position + 1)) ∧
    (∀ consumer topic partition,
      (KafkaSource.fetch consumer topic partition after).isSome) ∧
    ∀ log topic partition, (MemorySource.fetch log topic partition after).isSome := by
  have hask := ReachedBelow.asking h
  obtain ⟨edge, hedge, hafter⟩ := hask.asked hasked
  have hbelow : after < (i64Max : Cursor) :=
    lt_of_le_of_lt (hafter.elim le_of_eq le_of_lt) (hask.edge edge hedge)
  refine ⟨⟨edge, hedge, hafter⟩, fun position heq => ?_, fun _ _ _ => ?_, fun _ _ _ => ?_⟩
  · rw [heq] at hbelow
    exact successor_of_lt (WithBot.coe_lt_coe.mp hbelow)
  · exact KafkaSource.fetch_isSome hbelow
  · exact MemorySource.fetch_isSome hbelow

end World

namespace Overreaching

def config : PumpConfig :=
  { ringCapacity := 4, queueCapacity := 2, maxConsecutiveErrors := 0, idleShutdown := true }

def record (offset : Int) : Event := Event.at "orders" 0 offset 0

/-- Where a client starts that presents this resume token. -/
def resumed (token : String) : Position :=
  match position none (some token.toList) with
  | .ok position => position
  | .error _ => .latest

def opened : World := World.start config [record 5, record 9] (9 : Int)

theorem spawned : World.SpawnedBelow config opened where
  below := by decide
  start := rfl

/-- One client resumes after `i64::MAX` and is left waiting; another resumes
inside the log, ahead of what the ring holds. -/
def actions : List Action :=
  [.tick, .command (.subscribe (resumed "9223372036854775807") .default),
    .command (.subscribe (resumed "3") .default), .noCommand, .liveStart (.ok (9 : Int)),
    .fetched (.ok { events := [], nextAfter := ⊥ }), .tick, .tick, .tick, .tick, .tick]

def world : World :=
  (runActions (fun _ a => World.Below a) (World.step config) opened actions).getD opened

theorem reached : World.ReachedBelow config world := .of_run actions (.start spawned) rfl

end Overreaching

theorem World.ReachedBelow.asked_fits_overreaching :
    Overreaching.resumed "9223372036854775807" = .after i64Max ∧
    Overreaching.world.asked = some ((3 : Int) : Cursor) ∧
    (∃ edge, Overreaching.world.pump.liveEdge = .at edge ∧
      (((3 : Int) : Cursor) = edge ∨ ((3 : Int) : Cursor) < edge)) ∧
    (∀ position : Int, ((3 : Int) : Cursor) = position →
      successor position = some (position + 1)) ∧
    (∀ consumer topic partition,
      (KafkaSource.fetch consumer topic partition ((3 : Int) : Cursor)).isSome) ∧
    ∀ log topic partition, (MemorySource.fetch log topic partition ((3 : Int) : Cursor)).isSome :=
  ⟨by decide, by decide, World.ReachedBelow.asked_fits Overreaching.reached (by decide)⟩

end Odradek.Web
