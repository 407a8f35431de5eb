import Odradek.Client.Consumption
import Odradek.Web.StoreRuns

/-!
A pump over a partition of a Kafka log (`source.rs`), by the consumer's fetches. The
log grows at its end; compaction has left gaps, control batches carry no events, a
response is cut behind any whole batch, and any request may fail.
-/

namespace Odradek.Web.KafkaSource

open Library Odradek.Client Odradek.Protocol

variable {codecs : Codecs}

def eventsOf (log : StoredLog codecs) (topic : String) (partition : Int) (batch : RecordBatch) :
    List Event :=
  (log.contents batch).map fun record => toEvent topic partition (consumed batch record)

/-- What a source shows of a log: the records of its data batches. -/
def shown (topic : String) (partition : Int) (log : StoredLog codecs) : List Event :=
  (log.batches.filter fun batch => !batch.isControl).flatMap (eventsOf log topic partition)

/-- Offsets are not negative, and ascend inside a batch. -/
structure Numbered (log : StoredLog codecs) : Prop where
  first : ∀ batch ∈ log.batches, 0 ≤ firstOffset batch
  deltas : ∀ batch ∈ log.batches,
    (log.contents batch).Pairwise fun a b => a.offsetDelta.toInt < b.offsetDelta.toInt

/-- The log with more batches at its end. -/
structure Grows (log grown : StoredLog codecs) : Prop where
  batches : log.batches <+: grown.batches
  contents : ∀ batch ∈ log.batches, grown.contents batch = log.contents batch
  numbered : Numbered grown

/-- What a consumer answers about a log, where its requests succeed. -/
structure Reads (config : ConsumerConfig) (log : StoredLog codecs) (consumer : Answers) : Prop where
  earliest : ∀ offset, consumer.earliestOffset = .ok offset →
    ∀ batch ∈ log.batches, offset.toInt ≤ firstOffset batch
  latest : ∀ offset, consumer.latestOffset = .ok offset →
    ∀ batch ∈ log.batches, lastOffset batch < offset.toInt
  fetched : ∀ start map result, consumer.fetchWith start map = .ok result →
    ∃ entry before fetched rest tail,
      log.Answers config.isolationLevel start entry before fetched rest tail ∧
        fetchEntry codecs map config start entry = .ok result

def Fits : Cursor → Prop
  | some position => -2 ^ 63 ≤ position
  | none => True

instance : DecidablePred Fits
  | some position => inferInstanceAs (Decidable (-2 ^ 63 ≤ position))
  | none => .isTrue trivial

def store (config : ConsumerConfig) (topic : String) (partition : Int) :
    Store (StoredLog codecs) where
  write := Grows
  contents := shown topic partition
  liveStart log answer :=
    ∃ consumer, Reads config log consumer ∧ KafkaSource.liveStart consumer = answer
  fetch log after answer := Fits after ∧ ∃ consumer, Reads config log consumer ∧
    KafkaSource.fetch consumer topic partition after = some answer

/-- The end of the last batch. -/
def horizon (log : StoredLog codecs) : Cursor :=
  match log.batches.getLast? with
  | some batch => (lastOffset batch : Int)
  | none => ⊥

section Contents

variable {log grown : StoredLog codecs} {topic : String} {partition : Int}

theorem toEvent_offset (topic : String) (partition : Int) {batch : RecordBatch} {record : Record}
    (hbatch : batch ∈ log.batches) (hrecord : record ∈ log.contents batch) :
    (toEvent topic partition (consumed batch record)).offset =
      firstOffset batch + record.offsetDelta.toInt := by
  have hplaced := log.valid.placed batch hbatch
  have hinside := log.inside batch hbatch record hrecord
  have hlow := batch.baseOffset.minValue_le_toInt
  have hmin : Int64.minValue.toInt = -2 ^ 63 := by decide
  have hsum : (toEvent topic partition (consumed batch record)).offset =
      (batch.baseOffset + record.offsetDelta.toInt64).toInt := rfl
  rw [hsum, Int64.toInt_add, Int32.toInt_toInt64, firstOffset]
  unfold lastOffset Protocol.i64Max at hplaced
  exact Int.bmod_eq_of_le (by omega) (by omega)

/-- An event lies inside its batch. -/
theorem mem_eventsOf {batch : RecordBatch} {e : Event} (hbatch : batch ∈ log.batches)
    (h : e ∈ eventsOf log topic partition batch) :
    firstOffset batch ≤ e.offset ∧ e.offset ≤ lastOffset batch := by
  obtain ⟨record, hrecord, rfl⟩ := List.mem_map.mp h
  have hinside := log.inside batch hbatch record hrecord
  rw [toEvent_offset topic partition hbatch hrecord]
  unfold firstOffset lastOffset
  omega

/-- The events of some batches of a log, each inside the batch it is of. -/
theorem mem_dataOf {batches : List RecordBatch} {e : Event}
    (hmem : ∀ batch ∈ batches, batch ∈ log.batches)
    (h : e ∈ (batches.filter fun batch => !batch.isControl).flatMap
      (eventsOf log topic partition)) :
    ∃ batch ∈ batches, e ∈ eventsOf log topic partition batch ∧
      firstOffset batch ≤ e.offset ∧ e.offset ≤ lastOffset batch := by
  obtain ⟨batch, hbatch, he⟩ := List.mem_flatMap.mp h
  have hbatch := List.mem_of_mem_filter hbatch
  exact ⟨batch, hbatch, he, mem_eventsOf (hmem batch hbatch) he⟩

theorem mem_shown {e : Event} (h : e ∈ shown topic partition log) :
    ∃ batch ∈ log.batches, firstOffset batch ≤ e.offset ∧ e.offset ≤ lastOffset batch := by
  obtain ⟨batch, hbatch, _, hinside⟩ := mem_dataOf (fun _ => id) h
  exact ⟨batch, hbatch, hinside⟩

theorem Numbered.ascending (h : Numbered log) :
    Ascending Event.offset (shown topic partition log) := by
  refine List.pairwise_flatMap.mpr ⟨fun batch hbatch => ?_, ?_⟩
  · have hmem := List.mem_of_mem_filter hbatch
    refine List.pairwise_map.mpr ((h.deltas batch hmem).imp_of_mem fun ha hb hlt => ?_)
    rw [toEvent_offset topic partition hmem ha, toEvent_offset topic partition hmem hb]
    omega
  · refine (log.valid.ordered.filter _).imp_of_mem fun ha hb hlt x hx y hy => ?_
    have hleft := mem_eventsOf (List.mem_of_mem_filter ha) hx
    have hright := mem_eventsOf (List.mem_of_mem_filter hb) hy
    omega

/-- No batch ends behind the end of the last. -/
theorem le_horizon {batch : RecordBatch} (h : batch ∈ log.batches) :
    ((lastOffset batch : Int) : Cursor) ≤ horizon log := by
  have hordered := log.valid.ordered
  cases hlast : log.batches.getLast? with
  | none =>
      rw [List.getLast?_eq_none_iff.mp hlast] at h
      cases h
  | some last =>
      have hkey : horizon log = ((lastOffset last : Int) : Cursor) := by rw [horizon, hlast]
      have hle := log.valid.first_le_last (List.mem_of_getLast? hlast)
      obtain ⟨before, hbefore⟩ := List.getLast?_eq_some_iff.mp hlast
      rw [hkey]
      refine WithBot.coe_le_coe.mpr ?_
      rw [hbefore] at h hordered
      rcases List.mem_append.mp h with h | h
      · have hlt := (List.pairwise_append.mp hordered).2.2 batch h last List.mem_cons_self
        omega
      · rw [List.mem_singleton.mp h]

theorem horizon_le {high : Cursor}
    (h : ∀ batch ∈ log.batches, ((lastOffset batch : Int) : Cursor) ≤ high) :
    horizon log ≤ high := by
  unfold horizon
  split
  next batch hbatch => exact h batch (List.mem_of_getLast? hbatch)
  next => exact bot_le

/-- Growth shows more events behind the ones shown, past the horizon. -/
theorem Grows.shown_append (h : Grows log grown) :
    horizon log ≤ horizon grown ∧
      ∃ events, shown topic partition grown = shown topic partition log ++ events ∧
        ∀ e ∈ events, horizon log < (e.offset : Cursor) := by
  obtain ⟨new, hnew⟩ := h.batches
  have hordered := grown.valid.ordered
  rw [← hnew] at hordered
  have hmem : ∀ batch ∈ new, batch ∈ grown.batches := fun batch hbatch =>
    hnew ▸ List.mem_append_right _ hbatch
  refine ⟨horizon_le fun batch hbatch => le_horizon (hnew ▸ List.mem_append_left _ hbatch),
    (new.filter fun batch => !batch.isControl).flatMap (eventsOf grown topic partition), ?_, ?_⟩
  · have hold : (log.batches.filter fun batch => !batch.isControl).flatMap
        (eventsOf grown topic partition) = shown topic partition log := by
      refine List.flatMap_congr fun batch hbatch => ?_
      rw [eventsOf, eventsOf, h.contents batch (List.mem_of_mem_filter hbatch)]
    rw [shown, ← hnew, List.filter_append, List.flatMap_append, hold]
  · intro e he
    obtain ⟨batch, hbatch, _, hinside⟩ := mem_dataOf hmem he
    unfold horizon
    split
    next last hlast =>
        have hlt := (List.pairwise_append.mp hordered).2.2 last (List.mem_of_getLast? hlast)
          batch hbatch
        exact WithBot.coe_lt_coe.mpr (by omega)
    next => exact WithBot.bot_lt_coe _

end Contents

section Fetching

variable {config : ConsumerConfig} {log : StoredLog codecs} {topic : String} {partition : Int}
  {consumer : Answers} {after : Cursor}

theorem visibleBatches_readUncommitted (behind batches : List RecordBatch) :
    visibleBatches .readUncommitted behind batches =
      batches.filter fun batch => !batch.isControl := by
  induction batches with
  | nil => rfl
  | cons batch batches ih =>
      have hvisible : visible .readUncommitted batch (batches ++ behind) = !batch.isControl := by
        simp [visible]
      rw [visibleBatches, hvisible, List.filter_cons, ih]

theorem recordsOf_eq (start : Int) {batches : List RecordBatch}
    (hmem : ∀ batch ∈ batches, batch ∈ log.batches) :
    log.recordsOf (toEvent topic partition) start batches =
      (batches.flatMap (eventsOf log topic partition)).filter fun e => start ≤ e.offset := by
  induction batches with
  | nil => rfl
  | cons batch batches ih =>
      have hrest := ih fun b hb => hmem b (List.mem_cons_of_mem _ hb)
      rw [StoredLog.recordsOf] at hrest ⊢
      rw [List.flatMap_cons, List.flatMap_cons, List.filter_append, hrest, eventsOf,
        List.filter_map]
      congr 2
      refine List.filter_congr fun record hrecord => ?_
      have hoffset := toEvent_offset topic partition (hmem batch List.mem_cons_self) hrecord
      simp only [Function.comp_apply, hoffset]

/-- What a fetch returns, from where it starts. -/
theorem fetch_eq_ok {batch : SourceBatch}
    (hfetch : fetch consumer topic partition after = some (.ok batch)) :
    ∃ first result, start consumer after = some (.ok first) ∧
      consumer.fetchWith first (toEvent topic partition) = .ok result ∧
      batch.events = result.records ∧
      batch.nextAfter = if first < result.nextOffset then
        (((result.nextOffset - 1).toInt : Int) : Cursor) else ⊥ := by
  obtain ⟨_, hstart, hbind⟩ := Option.map_eq_some_iff.mp hfetch
  obtain ⟨first, rfl, hfrom⟩ := except_bind_eq_ok.mp hbind
  obtain ⟨result, hresult, hbatch⟩ := except_bind_eq_ok.mp hfrom
  cases hbatch
  exact ⟨first, result, hstart, hresult, rfl, rfl⟩

/-- The consumer starts at the first event after the position. -/
theorem start_le_iff {first : Int64} (hreads : Reads config log consumer) (hfits : Fits after)
    (hstart : start consumer after = some (.ok first)) {e : Event} {batch : RecordBatch}
    (hbatch : batch ∈ log.batches) (he : e ∈ eventsOf log topic partition batch) :
    after < (e.offset : Cursor) ↔ first.toInt ≤ e.offset := by
  induction after using WithBot.recBotCoe with
  | bot =>
      have hearliest : consumer.earliestOffset = .ok first := Option.some.inj hstart
      have hle := hreads.earliest first hearliest batch hbatch
      have hinside := (mem_eventsOf hbatch he).1
      exact ⟨fun _ => by omega, fun _ => WithBot.bot_lt_coe _⟩
  | coe p =>
      obtain ⟨next, hnext, hfirst⟩ := Option.map_eq_some_iff.mp hstart
      obtain rfl := Except.ok.inj hfirst
      have hlow : -2 ^ 63 ≤ p := hfits
      unfold successor at hnext
      split at hnext <;> cases hnext
      next hle =>
          unfold Web.i64Max at hle
          rw [Int64.toInt_ofInt_of_le (by omega) (by omega), WithBot.coe_lt_coe]
          omega

section Answered

variable {first : Int64} {entry : PartitionData} {before fetched rest : List RecordBatch}
  {tail : Bytes} {result : FetchResult Event}

/-- A response that reaches into the log's batches is a window of what is shown. -/
theorem records_window (hlevel : config.isolationLevel = .readUncommitted)
    (hreads : Reads config log consumer) (hfits : Fits after)
    (hstart : start consumer after = some (.ok first))
    (hanswers : log.Answers config.isolationLevel first entry before fetched rest tail)
    (hentry : fetchEntry codecs (toEvent topic partition) config first entry = .ok result)
    (hne : fetched ≠ []) :
    Event.window after (result.nextOffset.toInt - 1 : Int) (shown topic partition log) =
      result.records := by
  obtain ⟨hrecords, _⟩ := hanswers.records_eq hentry
  obtain ⟨_, _, hpast, _, hahead⟩ := hanswers.next hentry
  have hlog : ∀ b ∈ before ++ (fetched ++ rest), b ∈ log.batches := fun b hb => by
    rw [hanswers.split, List.append_assoc]
    exact hb
  have hbefore : ∀ b ∈ before, b ∈ log.batches := fun b hb => hlog b (List.mem_append_left _ hb)
  have hfetched : ∀ b ∈ fetched, b ∈ log.batches := fun b hb =>
    hlog b (List.mem_append_right _ (List.mem_append_left _ hb))
  have hrest : ∀ b ∈ rest, b ∈ log.batches := fun b hb =>
    hlog b (List.mem_append_right _ (List.mem_append_right _ hb))
  rw [hlevel, visibleBatches_readUncommitted,
    recordsOf_eq _ fun b hb => hfetched b (List.mem_of_mem_filter hb)] at hrecords
  rw [shown, hanswers.split, List.append_assoc, List.filter_append, List.filter_append,
    List.flatMap_append, List.flatMap_append, hrecords]
  refine (window_middle (fun e he => ?_) (fun e he => ?_) fun e he => ?_).trans
    (List.filter_congr fun e he => ?_)
  · obtain ⟨b, hb, he, hinside⟩ := mem_dataOf hbefore he
    have hbehind := hanswers.behind b hb
    refine not_lt.mp fun hlt => ?_
    have hle := (start_le_iff hreads hfits hstart (hbefore b hb) he).mp hlt
    omega
  · obtain ⟨b, hb, _, hinside⟩ := mem_dataOf hfetched he
    have hend := hpast b (List.mem_append_right _ hb)
    exact WithBot.coe_le_coe.mpr (by omega)
  · obtain ⟨b, hb, _, hinside⟩ := mem_dataOf hrest he
    have hge := hahead hne b hb
    exact WithBot.coe_lt_coe.mpr (by omega)
  · obtain ⟨b, hb, he, _⟩ := mem_dataOf hfetched he
    simp only [start_le_iff hreads hfits hstart (hfetched b hb) he]

/-- No response moves past the end of the log. -/
theorem next_le_horizon
    (hanswers : log.Answers config.isolationLevel first entry before fetched rest tail)
    (hentry : fetchEntry codecs (toEvent topic partition) config first entry = .ok result)
    (hne : fetched ≠ []) : ((result.nextOffset.toInt - 1 : Int) : Cursor) ≤ horizon log := by
  have hfetched : ∀ b ∈ fetched, b ∈ log.batches := fun b hb => by simp [hanswers.split, hb]
  obtain ⟨b, hb⟩ := List.exists_mem_of_ne_nil fetched hne
  have hlast := le_horizon (hfetched b hb)
  induction hend : horizon log using WithBot.recBotCoe with
  | bot => exact absurd (hend ▸ hlast) (not_le.mpr (WithBot.bot_lt_coe _))
  | coe high =>
      have hle : ∀ c ∈ fetched, lastOffset c ≤ high := fun c hc =>
        WithBot.coe_le_coe.mp (hend ▸ le_horizon (hfetched c hc))
      have hfirst := hanswers.ahead b (List.mem_append_left _ hb)
      have hbound := (foldl_next fetched first fun c hc =>
        log.valid.placed c (hfetched c hc)).2.2 (high + 1)
      rw [← (hanswers.records_eq hentry).2] at hbound
      have hnext := hbound (by have := hle b hb; omega) fun c hc => by have := hle c hc; omega
      exact WithBot.coe_le_coe.mpr (by omega)

end Answered

/-- One fetch is a window of what the source shows. -/
theorem fetch_window {batch : SourceBatch} (hlevel : config.isolationLevel = .readUncommitted)
    (hreads : Reads config log consumer) (hfits : Fits after)
    (hfetch : fetch consumer topic partition after = some (.ok batch)) :
    batch.events = Event.window after batch.nextAfter (shown topic partition log) ∧
      batch.nextAfter ≤ horizon log := by
  obtain ⟨first, result, hstart, hresult, hevents, hnextAfter⟩ := fetch_eq_ok hfetch
  obtain ⟨entry, before, fetched, rest, tail, hanswers, hentry⟩ := hreads.fetched _ _ _ hresult
  by_cases hempty : fetched = []
  · obtain ⟨hrecords, hnext⟩ := hanswers.records_eq hentry
    rw [hempty] at hrecords hnext
    have hstay : batch.nextAfter = ⊥ := by
      rw [hnextAfter, hnext]
      exact if_neg Int64.lt_irrefl
    rw [hevents, hrecords, hstay, Event.window, window_eq_nil_of_le bot_le]
    exact ⟨rfl, bot_le⟩
  · have hmoved := Int64.lt_iff_toInt_lt.mpr ((hanswers.next hentry).2.1 hempty)
    rw [if_pos hmoved, toInt_pred hmoved] at hnextAfter
    rw [hevents, hnextAfter]
    exact ⟨(records_window hlevel hreads hfits hstart hanswers hentry hempty).symm,
      next_le_horizon hanswers hentry hempty⟩

/-- `Latest` starts behind all there is. -/
theorem liveStart_covers {start : Cursor} (hnumbered : Numbered log)
    (hreads : Reads config log consumer) (h : liveStart consumer = .ok start) :
    ∀ e ∈ shown topic partition log, (e.offset : Cursor) ≤ start := by
  intro e he
  obtain ⟨watermark, hlatest, hstart⟩ := except_bind_eq_ok.mp h
  obtain ⟨batch, hbatch, hinside⟩ := mem_shown he
  have hend := hreads.latest watermark hlatest batch hbatch
  have hfirst := hnumbered.first batch hbatch
  have hpos : 0 < watermark := Int64.lt_iff_toInt_lt.mpr (by rw [Int64.toInt_zero]; omega)
  rw [if_pos hpos] at hstart
  obtain rfl := Except.ok.inj hstart
  rw [toInt_pred hpos]
  exact WithBot.coe_le_coe.mpr (by omega)

theorem lawful (hlevel : config.isolationLevel = .readUncommitted) :
    (store config topic partition).Lawful (Numbered : StoredLog codecs → Prop) horizon where
  ascending _ h := h.ascending
  below log _ e he := by
    obtain ⟨batch, hbatch, hinside⟩ := mem_shown he
    exact le_trans (WithBot.coe_le_coe.mpr hinside.2) (le_horizon hbatch)
  write _ _ _ hgrows := ⟨hgrows.numbered, hgrows.shown_append⟩
  liveStart _ _ h hanswer := by
    obtain ⟨consumer, hreads, hstart⟩ := hanswer
    exact liveStart_covers h hreads hstart
  fetch _ _ _ _ hanswer := by
    obtain ⟨hfits, consumer, hreads, hfetch⟩ := hanswer
    exact fetch_window hlevel hreads hfits hfetch

theorem bounded : (store config topic partition).Bounded (Numbered : StoredLog codecs → Prop) where
  contents log _ e he := by
    obtain ⟨batch, hbatch, hinside⟩ := mem_shown he
    have hplaced := (log.valid.placed batch hbatch).2
    unfold Protocol.i64Max at hplaced
    unfold Web.i64Max
    omega
  liveStart _ _ _ hanswer := by
    obtain ⟨consumer, _, rfl⟩ := hanswer
    exact liveStart_below consumer
  fetch _ _ _ _ hanswer := by
    obtain ⟨_, consumer, _, hfetch⟩ := hanswer
    exact fetch_below hfetch

abbrev Serving (config : ConsumerConfig) (topic : String) (partition : Int)
    (pump : PumpConfig) : Backed (StoredLog codecs) → Prop :=
  Backed.Reached (store config topic partition) Numbered horizon pump

/-- A stream of these events and then these errors. Live past the end of the log,
it has all it is owed. -/
structure Streams (topic : String) (partition : Int) (t : Backed (StoredLog codecs))
    (s : Subscriber) (events : List Event) (errors : List StreamError) : Prop where
  sent : s.state.sender.sent = events.map StreamItem.event ++ errors.map StreamItem.error
  failed : errors.length ≤ 1
  waiting : s.resolvedStart t.world.liveStart = none → events = []
  prefixed : ∀ start, s.resolvedStart t.world.liveStart = some start →
    events <+: s.owed (shown topic partition t.store) start
  whole : ∀ start front, s.resolvedStart t.world.liveStart = some start →
    s ∈ t.world.pump.subs.list → s.state.closed = false → s.state.mode = .live →
    t.world.front = .at front → horizon t.store ≤ front →
    events = s.owed (shown topic partition t.store) start ∧ errors = []

/-- However responses are cut, whatever fails and whatever the log grows by between
two steps, each stream is the records of the data batches behind its start, in
order and each once, then at most one error; and no position a pump asks for
overflows. -/
theorem Serving.records_delivered {pump : PumpConfig} {t : Backed (StoredLog codecs)}
    (h : Serving config topic partition pump t) (hcapacity : 0 < pump.queueCapacity)
    (hlevel : config.isolationLevel = .readUncommitted) :
    (∀ after, t.world.asked = some after →
      ∀ consumer, (fetch consumer topic partition after).isSome) ∧
    ∀ s ∈ t.world.subscribers, ∃ events errors, Streams topic partition t s events errors := by
  have hrefines := Backed.Reached.refines (lawful hlevel) h
  have hbelow := Backed.Reached.below (lawful hlevel) bounded h
  refine ⟨fun after hasked consumer => (hbelow.asked_fits hasked).2.2.1 consumer topic partition,
    fun s hs => ?_⟩
  have hlog : t.world.log = shown topic partition t.store := hrefines.log
  have hinv := World.Reached.inv hcapacity hrefines.reached
  obtain ⟨events, errors, hsent, hlen, hstart⟩ := hinv.delivered hs
  refine ⟨events, errors, hsent, by omega, fun hnone => ?_, fun start hsome => ?_,
    fun start front hsome hsub hopen hlive hfront hend => ?_⟩
  · rw [World.view, hnone] at hstart
    exact hstart
  · rw [World.view, hsome] at hstart
    exact hlog ▸ hstart
  · have hshown := ((hinv.subs s hsub).progress hopen).sent_of_live hlive hsome hfront
    have hall : t.world.view.log = shown topic partition t.store := hlog
    have hcover : ∀ e ∈ shown topic partition t.store, (e.offset : Cursor) ≤ front :=
      fun e he => le_trans ((lawful hlevel).below _ hrefines.inv e he) hend
    rw [hall, Event.window, window_eq_after hcover] at hshown
    exact events_of_items (hsent.symm.trans hshown)

section Running

variable {config : ConsumerConfig} {topic : String} {partition : Int} {pump : PumpConfig}

/-- The consumer's own answer, where the pump waits for one. -/
def answered (consumer : Answers) (topic : String) (partition : Int) (w : World) :
    Action → Option Action
  | .append _ => none
  | .liveStart _ => some (.liveStart (liveStart consumer))
  | .fetched _ => w.asked.bind fun after =>
    if Fits after then (fetch consumer topic partition after).map .fetched else none
  | a => some a

/-- The steps of a pump over a log that nobody writes to. -/
def drive (consumer : Answers) (topic : String) (partition : Int) (pump : PumpConfig) (w : World)
    (actions : List Action) : World :=
  actions.foldl (fun w a =>
    ((answered consumer topic partition w a).bind (w.step pump)).getD w) w

/-- The steps of the run are steps a store allows. -/
theorem answered_allowed {consumer : Answers} {t : Backed (StoredLog codecs)} {a a' : Action}
    (hreads : Reads config t.store consumer)
    (h : answered consumer topic partition t.world a = some a') :
    Backed.Allows (store config topic partition) t a' := by
  cases a with
  | append event => cases h
  | liveStart answer =>
      cases h
      exact ⟨consumer, hreads, rfl⟩
  | fetched answer =>
      obtain ⟨after, hasked, h⟩ := Option.bind_eq_some_iff.mp h
      split at h
      next hfits =>
          obtain ⟨answer', hfetch, rfl⟩ := Option.map_eq_some_iff.mp h
          exact ⟨after, hasked, hfits, consumer, hreads, hfetch⟩
      next => cases h
  | receive id | dropReceiver id | unpark id | command c | commandsClosed | noCommand
  | idleTimeout | tick => cases h; trivial

theorem Serving.drive {consumer : Answers} {log : StoredLog codecs} {w : World}
    (hreads : Reads config log consumer) (actions : List Action)
    (h : Serving config topic partition pump { store := log, world := w }) :
    Serving config topic partition pump
      { store := log, world := KafkaSource.drive consumer topic partition pump w actions } := by
  induction actions generalizing w with
  | nil => exact h
  | cons a actions ih =>
      refine ih (w := ((answered consumer topic partition w a).bind (w.step pump)).getD w) ?_
      cases hmove : (answered consumer topic partition w a).bind (w.step pump) with
      | none => exact h
      | some w' =>
          obtain ⟨a', hanswer, hstep⟩ := Option.bind_eq_some_iff.mp hmove
          exact .step _ h (.pump (answered_allowed hreads hanswer) hstep)

end Running
end Fetching

namespace Gapped

def config : PumpConfig :=
  { ringCapacity := 4, queueCapacity := 4, maxConsecutiveErrors := 1, idleShutdown := true }

def unavailable : SourceError := { kind := .unavailable, message := "not connected" }

/-- The first response ends inside the second batch, and the one at the end of the
log is empty. -/
def response (first : Int64) : Option PartitionData :=
  if first = 1 then some firstEntry
  else if first = 3 then some secondEntry
  else if first = 6 then some (gappedEntry [])
  else none

theorem response_answers {first : Int64} {entry : PartitionData} (h : response first = some entry) :
    ∃ before fetched rest tail,
      gappedLog.Answers .readUncommitted first entry before fetched rest tail := by
  unfold response at h
  split at h
  next hfirst =>
      cases h
      exact hfirst ▸ ⟨_, _, _, _, firstEntry_answers⟩
  next =>
      split at h
      next hfirst =>
          cases h
          exact hfirst ▸ ⟨_, _, _, _, secondEntry_answers⟩
      next =>
          split at h <;> cases h
          next hfirst =>
              subst hfirst
              exact ⟨gapped, [], [], [],
                { split := rfl
                  behind := by decide
                  ahead := by decide
                  whole := fun _ => rfl
                  bytes := rfl
                  cut := .inl rfl
                  aborted := fun h => nomatch h }⟩

def consumer : Answers where
  earliestOffset := .ok 0
  latestOffset := .ok 6
  fetchWith first map :=
    match (response first).map (fetchEntry Codecs.stored map ConsumerConfig.default first) with
    | some (.ok result) => .ok result
    | _ => .error unavailable

theorem reads : Reads ConsumerConfig.default gappedLog consumer where
  earliest offset h := by
    cases h
    decide
  latest offset h := by
    cases h
    decide
  fetched first map result h := by
    simp only [consumer] at h
    split at h
    next heq =>
        obtain rfl := Except.ok.inj h
        obtain ⟨entry, hresponse, hentry⟩ := Option.map_eq_some_iff.mp heq
        obtain ⟨before, fetched, rest, tail, hanswers⟩ := response_answers hresponse
        exact ⟨entry, before, fetched, rest, tail, hanswers, hentry⟩
    next => cases h

def shortLog : StoredLog Codecs.stored where
  batches := [bareBatch 0 2 [0, 2]]
  contents := plainContents
  valid := ⟨by decide, by decide, by decide, by decide⟩
  encoded := fun batch hmem => gapped_encoded batch (List.mem_append_left [bareBatch 5 0 [0]] hmem)
  holds := List.forall_mem_singleton.mpr rfl
  inside := by decide

/-- It knows the end of the short log, and no fetch of it comes through. -/
def failing : Answers where
  earliestOffset := .error unavailable
  latestOffset := .ok 3
  fetchWith _ _ := .error unavailable

theorem failing_reads : Reads ConsumerConfig.default shortLog failing where
  earliest _ h := nomatch h
  latest offset h := by
    cases h
    decide
  fetched _ _ _ h := nomatch h

def event (offset : Int) : Event :=
  { Event.at "orders" 0 offset 0 with key := none, value := none }

def opened : World :=
  World.start config (shown "orders" 0 shortLog) (horizon shortLog)

/-- A client resumes after the first record. The first fetch fails, and then the client is
behind. -/
def movesBefore : List Action :=
  [.tick, .command (.subscribe (.after 0) .default), .noCommand, .liveStart (.ok ⊥),
    .fetched (.ok ⟨[], ⊥⟩), .tick, .tick, .tick]

/-- It gets the other two records by a fetch of its own and from the ring, and is live then. -/
def movesAfter : List Action :=
  [.fetched (.ok ⟨[], ⊥⟩), .tick, .tick, .tick, .noCommand, .fetched (.ok ⟨[], ⊥⟩), .tick, .tick,
    .tick, .tick, .tick]

def behind : World := drive failing "orders" 0 config opened movesBefore

/-- The last batch is appended while the client is behind. -/
def grown : World := Backed.extend behind [event 5]

def delivered : Backed (StoredLog Codecs.stored) :=
  { store := gappedLog, world := drive consumer "orders" 0 config grown movesAfter }

theorem short_numbered : Numbered shortLog := ⟨by decide, by decide⟩

theorem shortLog_grows : Grows shortLog gappedLog where
  batches := ⟨[bareBatch 5 0 [0]], rfl⟩
  contents _ _ := rfl
  numbered := ⟨by decide, by decide⟩

theorem shown_grown : shown "orders" 0 gappedLog = shown "orders" 0 shortLog ++ [event 5] := by
  decide +kernel

theorem delivered_serving : Serving ConsumerConfig.default "orders" 0 config delivered := by
  have hbehind : Serving ConsumerConfig.default "orders" 0 config
      { store := shortLog, world := behind } :=
    Serving.drive failing_reads movesBefore (.start ⟨short_numbered, rfl⟩)
  have hgrown : Serving ConsumerConfig.default "orders" 0 config
      { store := gappedLog, world := grown } :=
    .step _ hbehind (.write shortLog_grows shown_grown)
  exact Serving.drive reads movesAfter hgrown

end Gapped

theorem Serving.records_delivered_gapped :
    Gapped.behind.pump.consecutiveErrors = 1 ∧
    Gapped.delivered.world.pump.subs.list.map
      (fun s => (s.state.mode, s.state.closed, s.state.sender.sent)) =
        [(.live, false, [.event (Gapped.event 2), .event (Gapped.event 5)])] ∧
    Gapped.delivered.world.front = .at (horizon gappedLog) ∧
    (∀ after, Gapped.delivered.world.asked = some after →
      ∀ consumer, (fetch consumer "orders" 0 after).isSome) ∧
    ∀ s ∈ Gapped.delivered.world.subscribers,
      ∃ events errors, Streams "orders" 0 Gapped.delivered s events errors :=
  ⟨by decide +kernel, by decide +kernel, by decide +kernel,
    Serving.records_delivered Gapped.delivered_serving (by decide) rfl⟩

end Odradek.Web.KafkaSource
