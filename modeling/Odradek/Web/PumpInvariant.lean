import Odradek.Library.Reachable
import Odradek.Web.Following

/-!
The invariant of a pump over a source that honours its contract. The ring holds
the log from its floor to the front of the live path, every subscriber is
followed, and each control point says what its pending run is.
-/

namespace Odradek.Web

open Library

/-- How far the live path has pushed: inside a batch, its last pushed event. -/
def World.front (w : World) : LiveEdge :=
  match w.pump.pc with
  | .fanningOut cursor pushed _ _ =>
    .at (match pushed.getLast? with
      | some event => event.offset
      | none => cursor)
  | _ => w.pump.liveEdge

def World.view (w : World) : View :=
  { log := w.log, settled := w.settled, liveStart := w.liveStart, front := w.front }

/-- What the source promises when it answers, and the log when it grows. -/
def World.Honours (w : World) : Action → Prop
  | .append event => w.settled < (event.offset : Cursor)
  | .liveStart (.ok start) => ∀ e ∈ w.log, (e.offset : Cursor) ≤ start
  | .fetched (.ok batch) => ∀ cursor, w.asked = some cursor →
      batch.events = Event.window cursor batch.nextAfter w.log
  | _ => True

instance (w : World) (a : Action) : Decidable (w.Honours a) :=
  match a with
  | .append event => inferInstanceAs (Decidable (w.settled < (event.offset : Cursor)))
  | .liveStart (.ok start) => inferInstanceAs (Decidable (∀ e ∈ w.log, (e.offset : Cursor) ≤ start))
  | .fetched (.ok batch) =>
    match h : w.asked with
    | none => isTrue fun _ hc => by simp [h] at hc
    | some cursor =>
      decidable_of_iff (batch.events = Event.window cursor batch.nextAfter w.log) (by
        simp only [World.Honours, h, Option.some.injEq]
        exact ⟨fun heq _ hc => hc ▸ heq, fun hall => hall cursor rfl⟩)
  | .receive _ | .dropReceiver _ | .unpark _ | .command _ | .commandsClosed | .noCommand
  | .idleTimeout | .liveStart (.error _) | .fetched (.error _) | .tick => isTrue trivial

structure World.Spawned (config : PumpConfig) (w : World) : Prop where
  ascending : Ascending Event.offset w.log
  below : ∀ e ∈ w.log, (e.offset : Cursor) ≤ w.settled
  start : w = World.start config w.log w.settled

def World.Next (config : PumpConfig) (w : World) (a : Action) (w' : World) : Prop :=
  w.Honours a ∧ w.step config a = some w'

abbrev World.Reached (config : PumpConfig) : World → Prop :=
  Reachable (World.Spawned config) (World.Next config)

section RingWindow

variable {v : View}

/-- The ring is the log from its floor on, up to the front. -/
def Ring.Holds (ring : Ring) (v : View) : Prop :=
  match v.front with
  | .unknown => ring.events = []
  | .at front => ring.events = Event.window ring.floor front v.log ∧ ring.floor ≤ front ∧
      (front ≤ ring.floor ∨ front ≤ v.settled)

theorem Ring.evict_window (hv : v.Ordered) (capacity : Nat) (high : Cursor)
    (events : List Event) (floor : Cursor) (h : events = Event.window floor high v.log)
    (hle : floor ≤ high) :
    (Ring.evict capacity events floor).1 =
        Event.window (Ring.evict capacity events floor).2 high v.log ∧
      (Ring.evict capacity events floor).2 ≤ high := by
  induction events generalizing floor with
  | nil => exact ⟨h, hle⟩
  | cons dropped rest ih =>
      obtain ⟨_, hhigh, _, hrest⟩ := window_eq_cons hv.ascending h.symm
      unfold Ring.evict
      split
      · exact ih dropped.offset hrest.symm hhigh
      · exact ⟨h, hle⟩

theorem Ring.Holds.push {ring : Ring} (h : ring.Holds v) (hv : v.Ordered) {front : Cursor}
    (hf : v.front = .at front) {event : Event}
    (hone : Event.window front event.offset v.log = [event]) :
    (ring.push event).Holds { v with front := .at event.offset } := by
  simp only [Ring.Holds, hf] at h ⊢
  obtain ⟨hevents, hle, _⟩ := h
  have hmem : event ∈ Event.window front event.offset v.log := by simp [hone]
  obtain ⟨hlog, hlt, -⟩ := mem_window.mp hmem
  have hall : ring.events ++ [event] = Event.window ring.floor event.offset v.log := by
    rw [Event.window_split hv.ascending hle hlt.le, hevents, hone]
  obtain ⟨h1, h2⟩ := Ring.evict_window hv ring.capacity event.offset _ _ hall
    (le_trans hle hlt.le)
  exact ⟨h1, h2, .inr (hv.below _ hlog)⟩

theorem Ring.Holds.grown {ring : Ring} {v' : View} (h : ring.Holds v) (hg : v.Grown v') :
    ring.Holds v' := by
  unfold Ring.Holds at h ⊢
  rw [hg.front]
  cases hf : v.front with
  | unknown => simpa [hf] using h
  | «at» front =>
      simp only [hf] at h ⊢
      refine ⟨?_, h.2.1, h.2.2.imp_right fun hle => le_trans hle hg.settled⟩
      rw [hg.window h.2.2]
      exact h.1

/-- The edge moves over a stretch without entries. -/
theorem Ring.Holds.advance {ring : Ring} (h : ring.Holds v) (hv : v.Ordered)
    {front edge : Cursor} (hf : v.front = .at front) (hle : front ≤ edge)
    (final : edge = front ∨ edge ≤ v.settled) (empty : Event.window front edge v.log = []) :
    ring.Holds { v with front := .at edge } := by
  simp only [Ring.Holds, hf] at h
  obtain ⟨hevents, hfloor, hfinal⟩ := h
  have split := Event.window_extend hv.ascending hfloor hle empty
  refine ⟨hevents.trans split.symm, le_trans hfloor hle, ?_⟩
  rcases final with rfl | hsettled
  · exact hfinal
  · exact .inr hsettled

/-- What the ring replays to a cursor it covers is what the cursor is owed. -/
theorem Ring.Holds.after_eq {ring : Ring} (h : ring.Holds v) (hv : v.Ordered) {front : Cursor}
    (hf : v.front = .at front) {cursor : Cursor} (hc : ring.floor ≤ cursor) :
    ring.after cursor = Event.window cursor front v.log := by
  simp only [Ring.Holds, hf] at h
  rw [Ring.after, skipSeen, h.1]
  exact dropWhile_window hv.ascending hc

end RingWindow

/-- A run being pushed to the subscriber at `index` is what it is owed up to
`high`. -/
def World.Replaying (w : World) (index : Nat) (rest : List Event) (high : Cursor) : Prop :=
  high ≤ w.settled ∧ ∀ s, w.pump.subs.list[index]? = some s →
    s.state.closed = false ∧ s.state.mode = .catchingUp ∧
      rest = Event.window s.state.cursor high w.log

/-- What each control point of the loop relies on. -/
def World.PcOk (w : World) : Prop :=
  match w.pump.pc with
  | .awaitLiveStart => w.pump.liveEdge = .unknown
  | .awaitLiveFetch cursor => w.pump.liveEdge = .at cursor
  | .fanningOut cursor _ rest nextAfter => w.pump.liveEdge = .at cursor ∧
      nextAfter ≤ w.settled ∧ ∃ front, w.front = .at front ∧ cursor ≤ front ∧
        (front = cursor ∨ front ≤ nextAfter) ∧ rest = Event.window front nextAfter w.log
  | .servingRing _ | .choosing => ∃ edge, w.pump.liveEdge = .at edge
  | .replayingRing index rest => ∃ edge, w.pump.liveEdge = .at edge ∧
      w.Replaying index rest edge ∧
      ∀ s, w.pump.subs.list[index]? = some s → s.state.cursor ≤ edge
  | .awaitCatchUp index => ∀ s, w.pump.subs.list[index]? = some s →
      s.state.closed = false ∧ s.state.mode = .catchingUp
  | .replayingFetch index rest nextAfter => w.Replaying index rest nextAfter
  | .loopHead | .idle | .draining | .exited => True

structure World.Inv (config : PumpConfig) (w : World) : Prop where
  capacity : 0 < config.queueCapacity
  ordered : w.view.Ordered
  known : w.liveStart = .unknown ↔ w.pump.liveEdge = .unknown
  ring : w.pump.ring.Holds w.view
  subs : ∀ s ∈ w.pump.subs.list, Following w.view s
  ended : ∀ s ∈ w.ended, Delivered w.view s
  pc : w.PcOk

end Odradek.Web
