import Odradek.Web.StoreRuns

/-!
A pump over a shared in-memory log (`memory.rs`). Anybody may append to any of its
partitions between any two steps. Offsets are indexes there, so what a stream is
owed is the log from an index on.
-/

namespace Odradek.Web

open Library

/-- The key of the last entry, below all keys where there is none. -/
def lastPosition (events : List Event) : Cursor :=
  match events.getLast? with
  | some e => e.offset
  | none => ⊥

theorem lastPosition_concat (events : List Event) (e : Event) :
    lastPosition (events ++ [e]) = (e.offset : Cursor) := by
  simp [lastPosition]

/-- In order, nothing is past the last entry. -/
theorem le_lastPosition {events : List Event} (h : Ascending Event.offset events) :
    ∀ e ∈ events, (e.offset : Cursor) ≤ lastPosition events := by
  intro e he
  cases hlast : events.getLast? with
  | none =>
      rw [List.getLast?_eq_none_iff.mp hlast] at he
      cases he
  | some last =>
      obtain ⟨before, rfl⟩ := List.getLast?_eq_some_iff.mp hlast
      rw [lastPosition_concat]
      rcases List.mem_append.mp he with he | he
      · exact WithBot.coe_le_coe.mpr
          ((List.pairwise_append.mp h).2.2 e he last List.mem_cons_self).le
      · rw [List.mem_singleton.mp he]

/-- A run in the middle of a log is the window up to its last entry. -/
theorem window_lastPosition {low : Cursor} {front middle rest : List Event}
    (h : Ascending Event.offset (front ++ (middle ++ rest)))
    (hfront : ∀ e ∈ front, (e.offset : Cursor) ≤ low)
    (hmiddle : ∀ e ∈ middle, low < (e.offset : Cursor)) :
    Event.window low (lastPosition middle) (front ++ (middle ++ rest)) = middle := by
  obtain ⟨_, hback, _⟩ := List.pairwise_append.mp h
  obtain ⟨hasc, _, hcross⟩ := List.pairwise_append.mp hback
  have hrest : ∀ e ∈ rest, lastPosition middle < (e.offset : Cursor) := by
    intro e he
    unfold lastPosition
    split
    next last hlast =>
        exact WithBot.coe_lt_coe.mpr (hcross last (List.mem_of_getLast? hlast) e he)
    next => exact WithBot.bot_lt_coe _
  exact (window_middle hfront (le_lastPosition hasc) hrest).trans (after_eq_self hmiddle)

namespace MemoryLog

def withPartitions (count : Nat) : MemoryLog :=
  { partitions := List.replicate (max count 1) [], batchLimit := 3 }

def withBatchLimit (log : MemoryLog) (limit : Nat) : MemoryLog :=
  { log with batchLimit := max limit 1 }

structure Append where
  topic : String
  partition : Int
  key : Option Bytes
  value : Bytes
  headers : List (String × Option Bytes)
  deriving DecidableEq

def Append.event (r : Append) (offset : Int) : Event :=
  { topic := r.topic
    partition := r.partition
    offset
    timestamp := 1000 + offset
    key := r.key
    value := some r.value
    headers := r.headers }

/-- `MemoryLog::append`, a negative partition being the first; `none` where there is
no such partition, or no such timestamp. -/
def append (log : MemoryLog) (r : Append) : Option (Int × MemoryLog) :=
  (log.partitions[r.partition.toNat]?).bind fun events =>
    let offset := min (events.length : Int) i64Max
    if 1000 + offset ≤ i64Max then
      some (offset,
        { log with partitions :=
          log.partitions.set r.partition.toNat (events ++ [r.event offset]) })
    else none

/-- The logs that are made and appended to. -/
inductive Built : MemoryLog → Prop
  | fresh (count limit : Nat) : Built ((withPartitions count).withBatchLimit limit)
  | append {log log' : MemoryLog} {r : Append} {offset : Int} :
      Built log → log.append r = some (offset, log') → Built log'

/-- Offsets are indexes, short of the last timestamps. -/
def Dense (events : List Event) : Prop :=
  ∀ (k : Nat) (e : Event), events[k]? = some e → e.offset = k ∧ 1000 + (k : Int) ≤ i64Max

theorem append_eq_some {log log' : MemoryLog} {r : Append} {offset : Int} :
    log.append r = some (offset, log') ↔
      ∃ events, log.partitions[r.partition.toNat]? = some events ∧
        offset = min (events.length : Int) i64Max ∧ 1000 + offset ≤ i64Max ∧
        log' = { log with
          partitions := log.partitions.set r.partition.toNat (events ++ [r.event offset]) } := by
  simp only [append, Option.bind_eq_some_iff, Option.ite_none_right_eq_some, Option.some.injEq,
    Prod.mk.injEq]
  constructor
  · rintro ⟨events, hevents, hfits, rfl, rfl⟩
    exact ⟨events, hevents, rfl, hfits, rfl⟩
  · rintro ⟨events, hevents, rfl, hfits, rfl⟩
    exact ⟨events, hevents, hfits, rfl, rfl⟩

theorem Dense.concat {events : List Event} (h : Dense events) {r : Append} {offset : Int}
    (hoffset : offset = min (events.length : Int) i64Max) (hfits : 1000 + offset ≤ i64Max) :
    Dense (events ++ [r.event offset]) := by
  intro k e hk
  rcases Nat.lt_trichotomy k events.length with hlt | rfl | hgt
  · rw [List.getElem?_append_left hlt] at hk
    exact h k e hk
  · rw [List.getElem?_append_right (Nat.le_refl _), Nat.sub_self] at hk
    cases hk
    have hlen : offset = events.length := by omega
    exact ⟨hlen, hlen ▸ hfits⟩
  · rw [List.getElem?_eq_none (by rw [List.length_append]; exact hgt)] at hk
    cases hk

theorem Built.dense {log : MemoryLog} (h : Built log) :
    ∀ events ∈ log.partitions, Dense events := by
  induction h with
  | fresh count limit =>
      intro events hevents
      obtain rfl := List.eq_of_mem_replicate hevents
      exact fun k e hk => by cases hk
  | append _ happend ih =>
      obtain ⟨events, hevents, hoffset, hfits, rfl⟩ := append_eq_some.mp happend
      intro events' hevents'
      rcases List.mem_or_eq_of_mem_set hevents' with hmem | rfl
      · exact ih _ hmem
      · exact (ih events (List.mem_of_getElem? hevents)).concat hoffset hfits

section DenseLogs

variable {events : List Event}

theorem Dense.ascending (h : Dense events) : Ascending Event.offset events := by
  refine List.pairwise_iff_getElem.mpr fun i j hi hj hlt => ?_
  rw [(h i _ (List.getElem?_eq_getElem hi)).1, (h j _ (List.getElem?_eq_getElem hj)).1]
  omega

theorem Dense.below (h : Dense events) : ∀ e ∈ events, e.offset < i64Max := by
  intro e he
  obtain ⟨k, hk⟩ := List.mem_iff_getElem?.mp he
  have hindex := h k e hk
  omega

theorem Dense.length_le (h : Dense events) : (events.length : Int) ≤ i64Max := by
  rcases Nat.eq_zero_or_pos events.length with hzero | hpos
  · rw [hzero]
    decide
  · have hlast := h _ _ (List.getElem?_eq_getElem (Nat.sub_lt hpos Nat.one_pos))
    omega

/-- A position comes before the entries from an index on, and no earlier one. -/
def Splits (events : List Event) (n : Nat) (position : Cursor) : Prop :=
  (∀ e ∈ events.take n, (e.offset : Cursor) ≤ position) ∧
    ∀ e ∈ events.drop n, position < (e.offset : Cursor)

/-- In a dense log a position and an index split it at the same place. -/
theorem Dense.splits (h : Dense events) {n : Nat} {position : Cursor}
    (hbot : position = ⊥ → n = 0)
    (hcoe : ∀ p : Int, position = p → ((n : Int) ≤ max (p + 1) 0 ∧
      (n < events.length → p + 1 ≤ (n : Int)))) : Splits events n position := by
  constructor
  · intro e he
    obtain ⟨k, hk⟩ := List.mem_iff_getElem?.mp he
    rw [List.getElem?_take] at hk
    split at hk
    next hlt =>
        have hindex := (h k e hk).1
        induction position using WithBot.recBotCoe with
        | bot => exact absurd hlt (hbot rfl ▸ Nat.not_lt_zero k)
        | coe p =>
            have hn := (hcoe p rfl).1
            exact WithBot.coe_le_coe.mpr (by omega)
    next => cases hk
  · intro e he
    obtain ⟨k, hk⟩ := List.mem_iff_getElem?.mp he
    rw [List.getElem?_drop] at hk
    have hindex := (h _ e hk).1
    have hlt : n < events.length := by
      have := (List.getElem?_eq_some_iff.mp hk).1
      omega
    induction position using WithBot.recBotCoe with
    | bot => exact WithBot.bot_lt_coe _
    | coe p =>
        have hn := (hcoe p rfl).2 hlt
        exact WithBot.coe_lt_coe.mpr (by omega)

/-- Where the log goes on behind a position. -/
def indexAfter : Cursor → Nat
  | some position => (position + 1).toNat
  | none => 0

theorem Dense.splits_indexAfter (h : Dense events) (start : Cursor) :
    Splits events (indexAfter start) start := by
  refine h.splits ?_ ?_
  · rintro rfl
    rfl
  · rintro p rfl
    have hindex : indexAfter ((p : Int) : Cursor) = (p + 1).toNat := rfl
    omega

theorem Splits.after_eq {n : Nat} {position : Cursor} (h : Splits events n position) :
    Library.after Event.offset position events = events.drop n := by
  conv_lhs => rw [← List.take_append_drop n events]
  rw [after_append]
  rw [after_eq_nil h.1, after_eq_self h.2, List.nil_append]

/-- A batch from there on is a window, up to its last entry. -/
theorem Splits.window_eq {n : Nat} {position : Cursor} (h : Splits events n position)
    (hasc : Ascending Event.offset events) (limit : Nat) :
    Event.window position (lastPosition ((events.drop n).take limit)) events =
      (events.drop n).take limit := by
  have hsplit : events = events.take n ++
      ((events.drop n).take limit ++ (events.drop n).drop limit) := by
    rw [List.take_append_drop, List.take_append_drop]
  have hwindow := window_lastPosition (hsplit ▸ hasc) h.1 fun e he =>
    h.2 e (List.mem_of_mem_take he)
  rwa [← hsplit] at hwindow

end DenseLogs

section Source

variable (topic : String) (index : Int)

/-- What a source shows of one partition, under the topic it was asked for. -/
def shown (log : MemoryLog) : List Event :=
  match MemorySource.partition log index with
  | .ok events => events.map fun e => { e with topic }
  | .error _ => []

def store : Store MemoryLog where
  write log grown := ∃ r offset, log.append r = some (offset, grown)
  contents := shown topic index
  liveStart log answer := MemorySource.liveStart log index = answer
  fetch log after answer := MemorySource.fetch log topic index after = some answer

/-- The log was made and appended to, and has the partition. -/
def Open (log : MemoryLog) : Prop :=
  log.Built ∧ ∃ events, MemorySource.partition log index = .ok events

variable {topic index}

theorem partition_eq_ok {log : MemoryLog} {events : List Event} :
    MemorySource.partition log index = .ok events ↔
      0 ≤ index ∧ log.partitions[index.toNat]? = some events := by
  unfold MemorySource.partition
  by_cases hindex : 0 ≤ index
  · rw [if_pos hindex]
    cases log.partitions[index.toNat]? with
    | none => exact ⟨fun h => (by cases h), fun h => (by cases h.2)⟩
    | some found => exact ⟨fun h => ⟨hindex, (by cases h; rfl)⟩, fun h => (by cases h.2; rfl)⟩
  · rw [if_neg hindex]
    exact ⟨fun h => (by cases h), fun h => absurd h.1 hindex⟩

theorem Dense.withTopic {events : List Event} (h : Dense events) :
    Dense (events.map fun e => { e with topic }) := by
  intro k e hk
  rw [List.getElem?_map] at hk
  obtain ⟨held, hheld, rfl⟩ := Option.map_eq_some_iff.mp hk
  exact h k held hheld

theorem shown_eq {log : MemoryLog} {events : List Event}
    (h : MemorySource.partition log index = .ok events) :
    shown topic index log = events.map fun e => { e with topic } := by
  rw [shown, h]

theorem Open.dense (topic : String) {log : MemoryLog} (h : Open index log) :
    Dense (shown topic index log) := by
  obtain ⟨hbuilt, events, hevents⟩ := h
  rw [shown_eq hevents]
  exact (hbuilt.dense events (MemorySource.mem_partition hevents)).withTopic

theorem lastPosition_le {events : List Event} {high : Cursor}
    (h : ∀ e ∈ events, (e.offset : Cursor) ≤ high) : lastPosition events ≤ high := by
  unfold lastPosition
  split
  next e he => exact h e (List.mem_of_getLast? he)
  next => exact bot_le

theorem lastPosition_lt {events : List Event} {e : Event}
    (h : Ascending Event.offset (events ++ [e])) : lastPosition events < (e.offset : Cursor) := by
  unfold lastPosition
  split
  next last hlast =>
      have hcross := (List.pairwise_append.mp h).2.2 last (List.mem_of_getLast? hlast)
      exact WithBot.coe_lt_coe.mpr (hcross e List.mem_cons_self)
  next => exact WithBot.bot_lt_coe _

theorem lastPosition_withTopic (events : List Event) :
    lastPosition (events.map fun e => { e with topic }) = lastPosition events := by
  rw [lastPosition, lastPosition, List.getLast?_map]
  cases events.getLast? with
  | none => rfl
  | some e => rfl

/-- The partition of an append gets one event more, any other is as it was. -/
theorem shown_append (topic : String) {log log' : MemoryLog} {r : Append} {offset : Int}
    (h : Open index log) (happend : log.append r = some (offset, log')) :
    Open index log' ∧
      (shown topic index log' = shown topic index log ++ [{ r.event offset with topic }] ∨
        shown topic index log' = shown topic index log) := by
  obtain ⟨hbuilt, events, hevents⟩ := h
  obtain ⟨hindex, hget⟩ := partition_eq_ok.mp hevents
  have hbuilt' := hbuilt.append happend
  obtain ⟨found, hfound, _, _, hlog⟩ := append_eq_some.mp happend
  have hset : log'.partitions =
      log.partitions.set r.partition.toNat (found ++ [r.event offset]) := by
    rw [hlog]
  by_cases hsame : r.partition.toNat = index.toNat
  · rw [hsame] at hfound
    obtain rfl : events = found := Option.some.inj (hget.symm.trans hfound)
    have hlt : index.toNat < log.partitions.length := (List.getElem?_eq_some_iff.mp hget).1
    have hnew : MemorySource.partition log' index = .ok (events ++ [r.event offset]) := by
      refine partition_eq_ok.mpr ⟨hindex, ?_⟩
      rw [hset, hsame]
      exact List.getElem?_set_self hlt
    refine ⟨⟨hbuilt', _, hnew⟩, .inl ?_⟩
    rw [shown_eq hnew, shown_eq hevents, List.map_append]
    rfl
  · have hnew : MemorySource.partition log' index = .ok events := by
      refine partition_eq_ok.mpr ⟨hindex, ?_⟩
      rw [hset]
      exact (List.getElem?_set_ne hsame).trans hget
    refine ⟨⟨hbuilt', _, hnew⟩, .inr ?_⟩
    rw [shown_eq hnew, shown_eq hevents]

/-- What a fetch returns, from where it starts. -/
theorem fetch_eq_ok {log : MemoryLog} {after : Cursor} {batch : SourceBatch} {events : List Event}
    (hevents : MemorySource.partition log index = .ok events)
    (hfetch : MemorySource.fetch log topic index after = some (.ok batch)) :
    ∃ start, MemorySource.start after = some start ∧
      batch.events = ((shown topic index log).drop
        (min (max start 0) (min (events.length : Int) i64Max)).toNat).take log.batchLimit ∧
      batch.nextAfter = lastPosition batch.events := by
  simp only [MemorySource.fetch, hevents] at hfetch
  obtain ⟨start, hstart, hbatch⟩ := Option.map_eq_some_iff.mp hfetch
  obtain rfl := Except.ok.inj hbatch
  refine ⟨start, hstart, ?_, rfl⟩
  rw [shown_eq hevents, ← List.map_drop, ← List.map_take]

/-- One fetch is a window of what the source shows. -/
theorem fetch_window {log : MemoryLog} {after : Cursor} {batch : SourceBatch} (h : Open index log)
    (hfetch : MemorySource.fetch log topic index after = some (.ok batch)) :
    batch.events = Event.window after batch.nextAfter (shown topic index log) ∧
      batch.nextAfter ≤ lastPosition (shown topic index log) := by
  have hdense := h.dense topic
  obtain ⟨_, events, hevents⟩ := h
  obtain ⟨start, hstart, hbatch, hnext⟩ := fetch_eq_ok hevents hfetch
  have hlen := hdense.length_le
  have hlength : (shown topic index log).length = events.length := by
    rw [shown_eq hevents, List.length_map]
  have hsplits : Splits (shown topic index log)
      (min (max start 0) (min (events.length : Int) i64Max)).toNat after := by
    refine hdense.splits ?_ ?_
    · rintro rfl
      cases hstart
      omega
    · rintro p rfl
      have hsuccessor : successor p = some start := hstart
      unfold successor at hsuccessor
      split at hsuccessor <;> cases hsuccessor
      omega
  refine ⟨?_, ?_⟩
  · rw [hnext, hbatch]
    exact (hsplits.window_eq hdense.ascending _).symm
  · rw [hnext, hbatch]
    refine lastPosition_le fun e he => le_lastPosition hdense.ascending e ?_
    exact List.mem_of_mem_drop (List.mem_of_mem_take he)

/-- The end of the log is where `Latest` starts. -/
theorem liveStart_eq (topic : String) {log : MemoryLog} (h : Open index log) :
    MemorySource.liveStart log index = .ok (lastPosition (shown topic index log)) := by
  obtain ⟨_, events, hevents⟩ := h
  rw [MemorySource.liveStart, hevents, shown_eq hevents, lastPosition_withTopic]
  rfl

theorem fetch_of_open {log : MemoryLog} {after : Cursor}
    {answer : Except SourceError SourceBatch} (h : Open index log)
    (hfetch : MemorySource.fetch log topic index after = some answer) :
    ∃ batch, answer = .ok batch := by
  obtain ⟨_, events, hevents⟩ := h
  simp only [MemorySource.fetch, hevents] at hfetch
  obtain ⟨start, _, rfl⟩ := Option.map_eq_some_iff.mp hfetch
  exact ⟨_, rfl⟩

theorem Open.below {log : MemoryLog} (h : Open index log) : MemorySource.Below log :=
  fun events hevents => (h.1.dense events hevents).below

/-- A log that is only appended to keeps what a source owes its pump. -/
theorem lawful : (store topic index).Lawful (Open index)
    fun log => lastPosition (shown topic index log) where
  ascending _ h := (h.dense topic).ascending
  below _ h := le_lastPosition (h.dense topic).ascending
  write log next h hwrite := by
    obtain ⟨r, offset, happend⟩ := hwrite
    obtain ⟨hopen, hshown | hshown⟩ := shown_append topic h happend
    · have hasc := (hopen.dense topic).ascending
      rw [hshown] at hasc
      have hpast := lastPosition_lt hasc
      refine ⟨hopen, ?_, _, hshown, fun e he => ?_⟩
      · rw [hshown, lastPosition_concat]
        exact hpast.le
      · rw [List.mem_singleton.mp he]
        exact hpast
    · refine ⟨hopen, hshown ▸ le_rfl, [], ?_, fun e he => absurd he List.not_mem_nil⟩
      exact hshown.trans (List.append_nil _).symm
  liveStart _ start h hstart := by
    have hedge := Except.ok.inj (hstart.symm.trans (liveStart_eq topic h))
    rw [hedge]
    exact le_lastPosition (h.dense topic).ascending
  fetch _ _ _ h hfetch := fetch_window h hfetch

theorem bounded : (store topic index).Bounded (Open index) where
  contents _ h := (h.dense topic).below
  liveStart _ _ h hanswer := hanswer ▸ MemorySource.liveStart_below h.below index
  fetch _ _ _ h hanswer := MemorySource.fetch_below h.below hanswer

abbrev Serving (topic : String) (index : Int) (config : PumpConfig) : Backed MemoryLog → Prop :=
  Backed.Reached (store topic index) (Open index)
    (fun log => lastPosition (shown topic index log)) config

variable (topic index) in
/-- What a subscriber wants of the log, from the index behind its start on. -/
def wanted (t : Backed MemoryLog) (s : Subscriber) (start : Cursor) : List Event :=
  ((shown topic index t.store).drop (indexAfter start)).filter s.state.filter.matchesEvent

variable (topic index) in
/-- A stream of these events and of no error. Live at the end of the log, it has all
it wants. -/
structure Streams (t : Backed MemoryLog) (s : Subscriber) (events : List Event) : Prop where
  sent : s.state.sender.sent = events.map StreamItem.event
  parked : s.state.sender.parked = []
  waiting : s.resolvedStart t.world.liveStart = none → events = []
  prefixed : ∀ start, s.resolvedStart t.world.liveStart = some start →
    events <+: wanted topic index t s start
  whole : ∀ start, s.resolvedStart t.world.liveStart = some start →
    s ∈ t.world.pump.subs.list → s.state.closed = false → s.state.mode = .live →
    t.world.front = .at (lastPosition (shown topic index t.store)) →
    events = wanted topic index t s start

/-- Whoever appends what and wherever between its steps, a pump over a shared log
is always answered, and each stream is the log from the index behind its start on:
nothing left out, repeated or out of order, and never an error. -/
theorem Serving.streams_delivered {config : PumpConfig} {t : Backed MemoryLog}
    (h : Serving topic index config t) (hcapacity : 0 < config.queueCapacity) :
    (∀ after, t.world.asked = some after →
      ∃ batch, MemorySource.fetch t.store topic index after = some (.ok batch)) ∧
    ∀ s ∈ t.world.subscribers, ∃ events, Streams topic index t s events := by
  have hrefines := Backed.Reached.refines lawful h
  have hbelow := Backed.Reached.below lawful bounded h
  have hclean := Backed.Reached.clean lawful h
    (fun log e hopen hanswer => by
      cases (liveStart_eq topic hopen).symm.trans hanswer)
    fun log after e hopen hanswer => by
      obtain ⟨_, hbatch⟩ := fetch_of_open hopen hanswer
      cases hbatch
  constructor
  · intro after hasked
    have hfits := (hbelow.asked_fits hasked).2.2.2 t.store topic index
    obtain ⟨answer, hanswer⟩ := Option.isSome_iff_exists.mp hfits
    obtain ⟨batch, rfl⟩ := fetch_of_open hrefines.inv hanswer
    exact ⟨batch, hanswer⟩
  · intro s hs
    have hdense := hrefines.inv.dense topic
    have hlog : t.world.log = shown topic index t.store := hrefines.log
    have hinv := World.Reached.inv hcapacity hrefines.reached
    obtain ⟨events, errors, hsent, _, hstart⟩ := hinv.delivered hs
    obtain rfl := Backed.clean_errors (hclean s hs) hsent
    rw [List.map_nil, List.append_nil] at hsent
    have howed : ∀ start, s.owed t.world.log start = wanted topic index t s start := by
      intro start
      rw [Subscriber.owed, hlog, (hdense.splits_indexAfter start).after_eq, wanted]
    refine ⟨events, hsent, (hclean s hs).1, fun hnone => ?_, fun start hsome => ?_,
      fun start hsome hsub hopen hlive hfront => ?_⟩
    · rw [World.view, hnone] at hstart
      exact hstart
    · rw [World.view, hsome] at hstart
      exact howed start ▸ hstart
    · have hshown := ((hinv.subs s hsub).progress hopen).sent_of_live hlive hsome hfront
      have hall : t.world.view.log = shown topic index t.store := hlog
      rw [hall, Event.window, window_eq_after (le_lastPosition hdense.ascending), ← hlog] at hshown
      have hitems : events.map StreamItem.event ++ [].map StreamItem.error = _ :=
        (List.append_nil _).trans (hsent.symm.trans hshown)
      exact (events_of_items hitems).1.trans (howed start)

section Running

variable (topic index)

def answered (t : Backed MemoryLog) : Action → Option Action
  | .append _ => none
  | .liveStart _ => some (.liveStart (MemorySource.liveStart t.store index))
  | .fetched _ => t.world.asked.bind fun after =>
    (MemorySource.fetch t.store topic index after).map .fetched
  | a => some a

/-- One append, or one step of the pump. -/
def advance (config : PumpConfig) (t : Backed MemoryLog) :
    Append ⊕ Action → Option (Backed MemoryLog)
  | .inl r => (t.store.append r).map fun grown =>
    { store := grown.2
      world := Backed.extend t.world
        ((shown topic index grown.2).drop (shown topic index t.store).length) }
  | .inr a => (answered topic index t a).bind fun a =>
    (t.world.step config a).map fun world => { t with world }

variable {topic index}

theorem answered_allowed {t : Backed MemoryLog} {a a' : Action}
    (h : answered topic index t a = some a') : Backed.Allows (store topic index) t a' := by
  cases a with
  | append event => cases h
  | liveStart answer => cases h; rfl
  | fetched answer =>
      obtain ⟨after, hasked, h⟩ := Option.bind_eq_some_iff.mp h
      obtain ⟨answer', hfetch, rfl⟩ := Option.map_eq_some_iff.mp h
      exact ⟨after, hasked, hfetch⟩
  | receive id | dropReceiver id | unpark id | command c | commandsClosed | noCommand
  | idleTimeout | tick => cases h; trivial

theorem Serving.advance {config : PumpConfig} {t t' : Backed MemoryLog}
    (h : Serving topic index config t) {move : Append ⊕ Action}
    (hmove : MemoryLog.advance topic index config t move = some t') :
    Serving topic index config t' := by
  have hrefines := Backed.Reached.refines lawful h
  cases move with
  | inl r =>
      obtain ⟨⟨offset, grown⟩, happend, rfl⟩ := Option.map_eq_some_iff.mp hmove
      refine .step _ h (.write ⟨r, offset, happend⟩ ?_)
      have hprefix : shown topic index t.store <+: shown topic index grown := by
        obtain ⟨_, hshown | hshown⟩ := shown_append topic hrefines.inv happend
        · exact ⟨_, hshown.symm⟩
        · exact hshown ▸ List.prefix_refl _
      exact (List.prefix_iff_eq_append.mp hprefix).symm
  | inr a =>
      obtain ⟨a', hanswer, hmoved⟩ := Option.bind_eq_some_iff.mp hmove
      obtain ⟨world, hstep, rfl⟩ := Option.map_eq_some_iff.mp hmoved
      exact .step _ h (.pump (answered_allowed hanswer) hstep)

theorem Serving.run {config : PumpConfig} {t t' : Backed MemoryLog}
    (moves : List (Append ⊕ Action)) (h : Serving topic index config t)
    (hrun : moves.foldlM (MemoryLog.advance topic index config) t = some t') :
    Serving topic index config t' := by
  induction moves generalizing t with
  | nil =>
      cases hrun
      exact h
  | cons move moves ih =>
      rw [List.foldlM_cons] at hrun
      obtain ⟨mid, hmove, hrest⟩ := Option.bind_eq_some_iff.mp hrun
      exact ih (h.advance hmove) hrest

end Running

end Source

end MemoryLog

namespace SharedLog

open MemoryLog

def config : PumpConfig :=
  { ringCapacity := 4, queueCapacity := 4, maxConsecutiveErrors := 0, idleShutdown := true }

def put (partition : Int) : Append :=
  { topic := "orders", partition, key := none, value := [], headers := [] }

def log : MemoryLog :=
  { partitions := [[], [(put 1).event 0, (put 1).event 1]], batchLimit := 3 }

theorem log_built : log.Built :=
  .append (r := put 1) (.append (r := put 1) (.fresh 2 3) rfl) rfl

/-- A client resumes after the first record, and gets the second and a third by a
fetch of its own. The fourth comes to it live. -/
def moves : List (Append ⊕ Action) :=
  [.inr .tick, .inr (.command (.subscribe (.after 0) .default)), .inr .noCommand,
    .inr (.liveStart (.ok ⊥)), .inr (.fetched (.ok ⟨[], ⊥⟩)), .inr .tick, .inr .tick, .inr .tick,
    .inr .tick, .inl (put 0), .inl (put 1), .inr (.fetched (.ok ⟨[], ⊥⟩)), .inr .tick, .inr .tick,
    .inr .tick, .inr .tick, .inr .noCommand, .inr (.fetched (.ok ⟨[], ⊥⟩)), .inr .tick,
    .inr .tick, .inr .tick, .inr .tick, .inr .tick, .inl (put 1), .inr .tick, .inr .noCommand,
    .inr (.fetched (.ok ⟨[], ⊥⟩)), .inr .tick, .inr .tick]

def opened : Backed MemoryLog :=
  { store := log
    world := World.start config (shown "eu" 1 log) (lastPosition (shown "eu" 1 log)) }

theorem opened_serving : Serving "eu" 1 config opened :=
  .start ⟨⟨log_built, _, rfl⟩, rfl⟩

def delivered : Backed MemoryLog :=
  (moves.foldlM (MemoryLog.advance "eu" 1 config) opened).getD opened

theorem delivered_serving : Serving "eu" 1 config delivered := opened_serving.run moves rfl

/-- The record at an offset, as a client of topic `eu` sees it. -/
def event (offset : Int) : Event := { (put 1).event offset with topic := "eu" }

end SharedLog

theorem MemoryLog.Serving.streams_delivered_live :
    SharedLog.delivered.world.pump.subs.list.map (·.state.sender.sent) =
      [[.event (SharedLog.event 1), .event (SharedLog.event 2), .event (SharedLog.event 3)]] ∧
    SharedLog.delivered.world.front =
      .at (lastPosition (MemoryLog.shown "eu" 1 SharedLog.delivered.store)) ∧
    (∀ after, SharedLog.delivered.world.asked = some after →
      ∃ batch, MemorySource.fetch SharedLog.delivered.store "eu" 1 after = some (.ok batch)) ∧
    ∀ s ∈ SharedLog.delivered.world.subscribers,
      ∃ events, MemoryLog.Streams "eu" 1 SharedLog.delivered s events :=
  ⟨by decide, by decide,
    MemoryLog.Serving.streams_delivered SharedLog.delivered_serving (by decide)⟩

end Odradek.Web
