import Odradek.Web.PumpTicks

/-!
What a subscriber gets. Whatever path an event takes, the stream is what the
subscription is owed from its start on, with nothing left out, repeated or out
of order, and at most one error at its end.
-/

namespace Odradek.Web

open Library

/-- In every run of the pump each stream is a prefix of what it is owed, then
at most one error. -/
theorem World.Reached.exact_delivery {config : PumpConfig} {w : World}
    (h : World.Reached config w) (hcapacity : 0 < config.queueCapacity)
    {s : Subscriber} (hs : s ∈ w.pump.subs.list ++ w.ended) :
    ∃ (events : List Event) (errors : List StreamError),
      s.state.sender.sent = events.map StreamItem.event ++ errors.map StreamItem.error ∧
      errors.length ≤ 1 ∧
      match s.resolvedStart w.liveStart with
      | none => events = []
      | some start => events <+: s.owed w.log start := by
  obtain ⟨events, errors, hsent, hlen, hstart⟩ := (Reached.inv hcapacity h).delivered hs
  exact ⟨events, errors, hsent, by omega, hstart⟩

/-- A pump spawned over an empty log. -/
theorem World.Spawned.empty (config : PumpConfig) :
    World.Spawned config (World.start config [] ⊥) where
  ascending := List.Pairwise.nil
  below e he := by cases he
  start := rfl

namespace StalledReader

def config : PumpConfig :=
  { ringCapacity := 1, queueCapacity := 1, maxConsecutiveErrors := 0, idleShutdown := true }

def record (offset : Int) : Event := Event.at "orders" 0 offset 0

/-- Two sparse records of one batch: the first fills the reader's queue, the
second reaches it from the ring. -/
def actions : List Action :=
  [.tick, .command (.subscribe .latest .default), .noCommand, .liveStart (.ok ⊥),
    .append (record 3), .append (record 8),
    .fetched (.ok { events := [record 3, record 8], nextAfter := (8 : Int) }),
    .tick, .tick, .tick, .receive 0, .tick, .tick, .tick, .tick]

def world : World :=
  (runActions World.Honours (World.step config) (World.start config [] ⊥) actions).getD
    (World.start config [] ⊥)

theorem reached : World.Reached config world :=
  .of_run actions (.start (World.Spawned.empty config)) rfl

end StalledReader

theorem World.Reached.exact_delivery_stalled :
    StalledReader.world.pump.subs.list.map (·.state.sender.sent) =
      [[.event (StalledReader.record 3), .event (StalledReader.record 8)]] ∧
    ∀ s ∈ StalledReader.world.pump.subs.list ++ StalledReader.world.ended,
      ∃ (events : List Event) (errors : List StreamError),
        s.state.sender.sent = events.map StreamItem.event ++ errors.map StreamItem.error ∧
        errors.length ≤ 1 ∧
        match s.resolvedStart StalledReader.world.liveStart with
        | none => events = []
        | some start => events <+: s.owed StalledReader.world.log start :=
  ⟨by decide, fun _ hs => StalledReader.reached.exact_delivery (by decide) hs⟩

end Odradek.Web
