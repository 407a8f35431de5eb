import Odradek.Client.Consumer
import Odradek.Library.Results
import Odradek.Web.ResumeToken

/-!
The sources this crate ships (`source.rs`, `memory.rs`) and the start a client
asks of a partition stream (`params.rs`). Both sources fetch from the position
after the one they are given, an addition on an `i64` that is checked here.
-/

namespace Odradek.Web

open Library

def i64Max : Int := 2 ^ 63 - 1

/-- `position + 1` on an `i64`; `none` where it overflows. -/
def successor (position : Int) : Option Int :=
  if position + 1 ≤ i64Max then some (position + 1) else none

theorem successor_of_lt {position : Int} (h : position < i64Max) :
    successor position = some (position + 1) := if_pos (by omega)

section Params

inductive StartError
  | resumeToken
  | start (raw : Text)
  deriving DecidableEq

/-- `StreamParams::position`; `start` is the `from` parameter. -/
def position (start resume : Option Text) : Except StartError Position :=
  match resume with
  | some raw =>
    match readI64 raw with
    | none => .error .resumeToken
    | some offset => .ok (.after offset)
  | none =>
    match start with
    | none => .ok .latest
    | some raw =>
      if raw = "latest".toList then .ok .latest
      else if raw = "earliest".toList then .ok .earliest
      else
        match readI64 raw with
        | none => .error (.start raw)
        | some offset => .ok (.after offset)

end Params

namespace KafkaSource

open Odradek.Client

/-- What the consumer under a source answers about its partition. -/
structure Answers where
  earliestOffset : Except SourceError Int64
  latestOffset : Except SourceError Int64
  fetchWith : Int64 → (ConsumedRecord → Event) → Except SourceError (FetchResult Event)

def toEvent (topic : String) (partition : Int) (r : ConsumedRecord) : Event :=
  { Event.at topic partition r.offset.toInt r.timestamp.toInt with
    key := r.key
    value := r.value
    headers := r.headers.map fun h => (h.key, h.value) }

/-- Where `fetch` has the consumer start, if that can be computed. -/
def start (consumer : Answers) : Cursor → Option (Except SourceError Int64)
  | some position => (successor position).map fun next => .ok (Int64.ofInt next)
  | none => some consumer.earliestOffset

/-- The rest of `fetch`, from where it starts. -/
def fetchFrom (consumer : Answers) (topic : String) (partition : Int) (start : Int64) :
    Except SourceError SourceBatch := do
  let result ← consumer.fetchWith start (toEvent topic partition)
  return {
    events := result.records
    nextAfter :=
      if start < result.nextOffset then ((result.nextOffset - 1).toInt : Int) else ⊥ }

/-- `KafkaSource::fetch`; `none` where the addition overflows. -/
def fetch (consumer : Answers) (topic : String) (partition : Int) (after : Cursor) :
    Option (Except SourceError SourceBatch) :=
  (start consumer after).map fun start => start >>= fetchFrom consumer topic partition

def liveStart (consumer : Answers) : Except SourceError Cursor := do
  let watermark ← consumer.latestOffset
  return if 0 < watermark then ((watermark - 1).toInt : Int) else ⊥

theorem toInt_pred {low n : Int64} (h : low < n) : (n - 1).toInt = n.toInt - 1 := by
  have hlow := Int64.lt_iff_toInt_lt.mp h
  have hmin := Int64.le_toInt low
  have hmax := Int64.toInt_lt n
  rw [Int64.toInt_sub, Int64.toInt_one, Int.bmod_eq_of_le (by omega) (by omega)]

theorem toInt_pred_lt {low n : Int64} (h : low < n) : (n - 1).toInt < i64Max := by
  have hmax := Int64.toInt_lt n
  rw [toInt_pred h]
  unfold i64Max
  omega

/-- The position a fetch hands out is below `i64::MAX`. -/
theorem fetch_nextAfter {consumer : Answers} {topic : String} {partition : Int} {after : Cursor}
    {batch : SourceBatch} (h : fetch consumer topic partition after = some (.ok batch)) :
    batch.nextAfter < (i64Max : Cursor) := by
  obtain ⟨_, _, hfrom⟩ := Option.map_eq_some_iff.mp h
  obtain ⟨start, _, hfrom⟩ := except_bind_eq_ok.mp hfrom
  obtain ⟨result, _, hbatch⟩ := except_bind_eq_ok.mp hfrom
  cases hbatch
  dsimp only
  split
  next hlt => exact WithBot.coe_lt_coe.mpr (toInt_pred_lt hlt)
  next => exact WithBot.bot_lt_coe _

theorem liveStart_lt {consumer : Answers} {edge : Cursor} (h : liveStart consumer = .ok edge) :
    edge < (i64Max : Cursor) := by
  obtain ⟨watermark, _, hedge⟩ := except_bind_eq_ok.mp h
  cases hedge
  split
  next hlt => exact WithBot.coe_lt_coe.mpr (toInt_pred_lt hlt)
  next => exact WithBot.bot_lt_coe _

/-- Below `i64::MAX` there is a place to fetch from. -/
theorem fetch_isSome {consumer : Answers} {topic : String} {partition : Int} {after : Cursor}
    (h : after < (i64Max : Cursor)) : (fetch consumer topic partition after).isSome := by
  unfold fetch
  rw [Option.isSome_map]
  cases after with
  | none => rfl
  | some position =>
      have hlt : position < i64Max := WithBot.coe_lt_coe.mp h
      change ((successor position).map _).isSome
      rw [successor_of_lt hlt]
      rfl

end KafkaSource

/-- `MemoryLog`: what each partition holds. -/
structure MemoryLog where
  partitions : List (List Event)
  batchLimit : Nat

namespace MemorySource

def partition (log : MemoryLog) (partition : Int) : Except SourceError (List Event) :=
  match (if 0 ≤ partition then log.partitions[partition.toNat]? else none) with
  | some events => .ok events
  | none => .error { kind := .notFound, message := s!"no partition {partition}" }

def start : Cursor → Option Int
  | some position => successor position
  | none => some 0

/-- `MemorySource::fetch`; `none` where the addition overflows. -/
def fetch (log : MemoryLog) (topic : String) (partition : Int) (after : Cursor) :
    Option (Except SourceError SourceBatch) :=
  match MemorySource.partition log partition with
  | .error e => some (.error e)
  | .ok events => (start after).map fun start =>
    let len := min (events.length : Int) i64Max
    let batch := ((events.drop (min (max start 0) len).toNat).take log.batchLimit).map
      fun e => { e with topic }
    .ok {
      events := batch
      nextAfter := match batch.getLast? with
        | some e => e.offset
        | none => ⊥ }

def liveStart (log : MemoryLog) (partition : Int) : Except SourceError Cursor := do
  let events ← MemorySource.partition log partition
  return match events.getLast? with
    | some e => e.offset
    | none => ⊥

/-- The positions of a log are below `i64::MAX`. -/
def Below (log : MemoryLog) : Prop :=
  ∀ events ∈ log.partitions, ∀ e ∈ events, e.offset < i64Max

theorem mem_partition {log : MemoryLog} {index : Int} {events : List Event}
    (h : MemorySource.partition log index = .ok events) : events ∈ log.partitions := by
  unfold MemorySource.partition at h
  split at h
  next events' hevents =>
      cases h
      split at hevents
      · exact List.mem_of_getElem? hevents
      · cases hevents
  next => cases h

theorem last_lt {events : List Event} (h : ∀ e ∈ events, e.offset < i64Max) :
    (match events.getLast? with
      | some e => (e.offset : Cursor)
      | none => ⊥) < (i64Max : Cursor) := by
  split
  next e he => exact WithBot.coe_lt_coe.mpr (h e (List.mem_of_getLast? he))
  next => exact WithBot.bot_lt_coe _

theorem fetch_nextAfter {log : MemoryLog} {topic : String} {index : Int} {after : Cursor}
    {batch : SourceBatch} (below : Below log)
    (h : fetch log topic index after = some (.ok batch)) :
    batch.nextAfter < (i64Max : Cursor) := by
  unfold fetch at h
  split at h
  · cases h
  next events hevents =>
      obtain ⟨start, _, hbatch⟩ := Option.map_eq_some_iff.mp h
      cases hbatch
      refine last_lt fun e he => ?_
      obtain ⟨held, hheld, rfl⟩ := List.mem_map.mp he
      exact below events (mem_partition hevents) held
        (List.mem_of_mem_drop (List.mem_of_mem_take hheld))

theorem liveStart_lt {log : MemoryLog} {index : Int} {edge : Cursor} (below : Below log)
    (h : liveStart log index = .ok edge) : edge < (i64Max : Cursor) := by
  obtain ⟨events, hevents, hedge⟩ := except_bind_eq_ok.mp h
  cases hedge
  exact last_lt (below events (mem_partition hevents))

/-- Below `i64::MAX` there is a place to fetch from. -/
theorem fetch_isSome {log : MemoryLog} {topic : String} {index : Int} {after : Cursor}
    (h : after < (i64Max : Cursor)) : (fetch log topic index after).isSome := by
  unfold fetch
  split
  · rfl
  · rw [Option.isSome_map]
    cases after with
    | none => rfl
    | some position =>
        have hlt : position < i64Max := WithBot.coe_lt_coe.mp h
        change (successor position).isSome
        rw [successor_of_lt hlt]
        rfl

end MemorySource

end Odradek.Web
