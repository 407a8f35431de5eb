import Odradek.Library.Window
import Odradek.Web.Pump

/-!
What one subscriber has been shown. The pump's cursors, modes and queues are
read against a view of the world: the log, the position behind which nothing
more is appended, the source's answer to `live_start`, and how far the live
path has pushed. Every change to a subscriber keeps this reading.
-/

namespace Odradek.Web

open Library

abbrev Event.window (low high : Cursor) (log : List Event) : List Event :=
  Library.window Event.offset low high log

/-- A window of the log is the windows on both sides of a position inside it. -/
theorem Event.window_split {low mid high : Cursor} {log : List Event}
    (h : Ascending Event.offset log) (hl : low ≤ mid) (hh : mid ≤ high) :
    Event.window low high log = Event.window low mid log ++ Event.window mid high log :=
  Library.window_split h hl hh

/-- Moving the end of a window over a stretch without entries. -/
theorem Event.window_extend {low mid high : Cursor} {log : List Event}
    (h : Ascending Event.offset log) (hl : low ≤ mid) (hh : mid ≤ high)
    (empty : Event.window mid high log = []) :
    Event.window low high log = Event.window low mid log := by
  rw [Event.window_split h hl hh, empty, List.append_nil]

/-- The part of the world a subscriber's progress is measured against. -/
structure View where
  log : List Event
  settled : Cursor
  liveStart : LiveEdge
  front : LiveEdge

/-- The log is in order and everything in it is settled. -/
structure View.Ordered (v : View) : Prop where
  ascending : Ascending Event.offset v.log
  below : ∀ e ∈ v.log, (e.offset : Cursor) ≤ v.settled

/-- Where a subscription starts: after its own position, or, for `Latest`,
after the live edge it found, else after the edge the source then reported. -/
def Subscriber.resolvedStart (liveStart : LiveEdge) (s : Subscriber) : Option Cursor :=
  match s.position with
  | .earliest => some ⊥
  | .after offset => some offset
  | .latest =>
    match s.edge with
    | .at edge => some edge
    | .unknown =>
      match liveStart with
      | .at edge => some edge
      | .unknown => none

def Filter.shown (filter : Filter) (events : List Event) : List StreamItem :=
  (events.filter filter.matchesEvent).map StreamItem.event

/-- The events a subscription is owed, in the order it is owed them. -/
def Subscriber.owed (log : List Event) (start : Cursor) (s : Subscriber) : List Event :=
  (Library.after Event.offset start log).filter s.state.filter.matchesEvent

/-- The items sent are events the subscription is owed, from the first on with
none left out, then at most one error; `parked` errors count as well. -/
def Delivered (v : View) (s : Subscriber) : Prop :=
  ∃ (events : List Event) (errors : List StreamError),
    s.state.sender.sent = events.map StreamItem.event ++ errors.map StreamItem.error ∧
    errors.length + s.state.sender.parked.length ≤ 1 ∧
    match s.resolvedStart v.liveStart with
    | none => events = []
    | some start => events <+: s.owed v.log start

/-- Everything after `start` up to `seen` has been shown, and no entry will
appear there any more. -/
structure ShownTo (v : View) (s : Subscriber) (start seen : Cursor) : Prop where
  sent : s.state.sender.sent = s.state.filter.shown (Event.window start seen v.log)
  le : start ≤ seen
  final : seen ≤ start ∨ seen ≤ v.settled

structure ChannelOpen (c : Channel) : Prop where
  parked : c.parked = []
  queued : c.queued ≤ c.sent.length
  capacity : 0 < c.capacity

/-- A live subscriber's cursor is where catch-up may resume, unless it has been
shown nothing at all. -/
def Resumable (v : View) (s : Subscriber) (start front : Cursor) : Prop :=
  (start ≤ s.state.cursor ∧ s.state.cursor ≤ front ∧
      Event.window s.state.cursor front v.log = []) ∨
    Event.window start front v.log = []

inductive Progress (v : View) (s : Subscriber) : Prop
  /-- A `Latest` subscription made before anybody asked where "now" is. -/
  | waiting : s.resolvedStart v.liveStart = none → v.front = .unknown → s.state.mode = .live →
      s.state.sender.sent = [] → Progress v s
  | catchingUp (start : Cursor) : s.resolvedStart v.liveStart = some start →
      s.state.mode = .catchingUp → ShownTo v s start s.state.cursor → Progress v s
  | live (start front : Cursor) : s.resolvedStart v.liveStart = some start → v.front = .at front →
      s.state.mode = .live → ShownTo v s start front → Resumable v s start front → Progress v s

/-- What holds of every subscriber the pump still serves. -/
structure Following (v : View) (s : Subscriber) : Prop where
  ended : s.state.closed = true → Delivered v s
  channel : s.state.closed = false → ChannelOpen s.state.sender
  progress : s.state.closed = false → Progress v s

theorem resolvedStart_at {s : Subscriber} {start edge : Cursor}
    (h : s.resolvedStart .unknown = some start) : s.resolvedStart (.at edge) = some start := by
  cases hp : s.position with
  | earliest | after _ => simpa [Subscriber.resolvedStart, hp] using h
  | latest =>
      cases he : s.edge with
      | unknown => simp [Subscriber.resolvedStart, hp, he] at h
      | «at» _ => simpa [Subscriber.resolvedStart, hp, he] using h

theorem resolvedStart_waiting {s : Subscriber} {edge : Cursor}
    (h : s.resolvedStart .unknown = none) : s.resolvedStart (.at edge) = some edge := by
  cases hp : s.position with
  | earliest | after _ => simp [Subscriber.resolvedStart, hp] at h
  | latest =>
      cases he : s.edge with
      | unknown => simp [Subscriber.resolvedStart, hp, he]
      | «at» _ => simp [Subscriber.resolvedStart, hp, he] at h

theorem Filter.shown_append (filter : Filter) (xs ys : List Event) :
    filter.shown (xs ++ ys) = filter.shown xs ++ filter.shown ys := by
  simp [Filter.shown]

theorem Filter.shown_singleton (filter : Filter) (e : Event) :
    filter.shown [e] = if filter.matchesEvent e then [.event e] else [] := by
  simp only [Filter.shown, List.filter_cons, List.filter_nil]
  split <;> rfl

section Reading

variable {v : View} {s : Subscriber}

theorem ShownTo.delivered {start seen : Cursor} (h : ShownTo v s start seen)
    (hv : v.Ordered) (hs : s.resolvedStart v.liveStart = some start)
    (hp : s.state.sender.parked = []) : Delivered v s := by
  refine ⟨(Event.window start seen v.log).filter s.state.filter.matchesEvent, [], ?_, ?_, ?_⟩
  · simpa [Filter.shown] using h.sent
  · simp [hp]
  · simp only [hs, Subscriber.owed]
    exact (window_prefix_after hv.ascending).filter _

theorem Progress.delivered (h : Progress v s) (hv : v.Ordered)
    (hp : s.state.sender.parked = []) : Delivered v s := by
  cases h with
  | waiting hs _ _ hn => exact ⟨[], [], by simpa using hn, by simp [hp], by simp [hs]⟩
  | catchingUp start hs _ hshown => exact hshown.delivered hv hs hp
  | live start front hs _ _ hshown _ => exact hshown.delivered hv hs hp

theorem Following.delivered (h : Following v s) (hv : v.Ordered) : Delivered v s := by
  cases hc : s.state.closed with
  | true => exact h.ended hc
  | false => exact (h.progress hc).delivered hv (h.channel hc).parked

/-- Ending an open stream parks its only error. -/
theorem Following.fail (h : Following v s) (hv : v.Ordered) (hc : s.state.closed = false)
    (e : SourceError) : Delivered v { s with state := s.state.fail e } := by
  obtain ⟨events, errors, hsent, hlen, hstart⟩ := h.delivered hv
  have hp := (h.channel hc).parked
  have hne : errors = [] := by
    cases hpr : h.progress hc with
    | waiting _ _ _ hn =>
        rw [hn] at hsent
        simpa using (List.append_eq_nil_iff.mp hsent.symm).2
    | catchingUp _ _ _ hshown | live _ _ _ _ _ hshown _ =>
        have hall : ∀ x ∈ s.state.sender.sent, x.event?.isSome := by
          rw [hshown.sent]
          intro x hx
          obtain ⟨y, _, rfl⟩ := List.mem_map.mp hx
          rfl
        cases errors with
        | nil => rfl
        | cons e es =>
            have := hall (.error e) (by rw [hsent]; simp)
            simp [StreamItem.event?] at this
  refine ⟨events, errors, ?_, ?_, ?_⟩
  · simpa [SubState.fail] using hsent
  · simp [SubState.fail, hne, hp]
  · simpa [SubState.fail, Subscriber.resolvedStart, Subscriber.owed] using hstart

end Reading

end Odradek.Web
