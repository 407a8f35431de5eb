import Mathlib.Data.List.Induction
import Odradek.Library.Merge
import Odradek.Web.ExactDelivery
import Odradek.Web.ResumeToken

/-!
A topic stream over SSE (`stream_topic` of the transport): the partitions'
streams merged, each event under the cursor of all that was sent so far. A
client that reconnects with the id of any event misses nothing and sees nothing
again.
-/

namespace Odradek.Web

open Library

structure TopicLog where
  partitions : List Int
  log : Int → List Event
  ascending : ∀ p ∈ partitions, Ascending Event.offset (log p)
  own : ∀ p ∈ partitions, ∀ e ∈ log p, e.partition = p
  inRange : ∀ p ∈ partitions, ∀ e ∈ log p, PairInRange (e.partition, e.offset)

/-- What the transport sends for an item of the stream. -/
inductive Frame
  | record (id : Text) (event : Event)
  | error (error : StreamError)
  deriving DecidableEq

/-- The cursor a stream starts with: the resume point, on the partitions the
subscription covers. -/
def seed (covered : List Int) : TopicPosition → Seen
  | .after cursor => cursor.retain (covered.contains ·)
  | .earliest | .latest => .empty

def frames (running : Seen) : List StreamItem → List Frame
  | [] => []
  | .event event :: items =>
    let running := running.insert event.partition event.offset
    .record (encodeCursor running) event :: frames running items
  | .error error :: items => .error error :: frames running items

def eventsOf (items : List StreamItem) : List Event := items.filterMap StreamItem.event?

/-- What a topic stream from `position` answers its client. -/
def response (covered : List Int) (position : TopicPosition) (items : List StreamItem) :
    List Frame :=
  frames (seed covered position) items

def Frame.item : Frame → StreamItem
  | .record _ event => .event event
  | .error e => .error e

/-- The records a client reads in what it is answered. -/
def recordsIn (answer : List Frame) : List Event := eventsOf (answer.map Frame.item)

def advance (cursor : Seen) (events : List Event) : Seen :=
  events.foldl (fun cursor event => cursor.insert event.partition event.offset) cursor

/-- What a partition's stream from `position` is owed; `Latest` is not asked. -/
def owedFrom (log : List Event) (filter : Filter) (position : Position) : List Event :=
  match position with
  | .earliest => (after Event.offset ⊥ log).filter filter.matchesEvent
  | .after offset => (after Event.offset offset log).filter filter.matchesEvent
  | .latest => []

/-- The front of what a pump sent one of its subscribers, the log being `log`
once the pump has seen all of it. -/
def PartitionStream (config : PumpConfig) (log : List Event) (position : Position)
    (filter : Filter) (items : List StreamItem) : Prop :=
  ∃ (w : World) (s : Subscriber), World.Reached config w ∧
    s ∈ w.pump.subs.list ++ w.ended ∧ s.position = position ∧ s.state.filter = filter ∧
    w.log <+: log ∧ items <+: s.state.sender.sent

/-- The items a topic stream from `position` has sent when it is cut. -/
def TopicStream (config : PumpConfig) (topic : TopicLog) (filter : Filter)
    (position : TopicPosition) (items : List StreamItem) : Prop :=
  ∃ (streams : Int → List StreamItem) (merged : List (Int × StreamItem)),
    (∀ p ∈ topic.partitions,
      PartitionStream config (topic.log p) (partitionPosition position p) filter (streams p)) ∧
    Merged topic.partitions streams merged ∧ items = merged.map (·.2)

/-- A client that asked for `start` and has reconnected any number of times with
the id of the last record it had read: all its records, and where its next stream
starts. -/
inductive Session (config : PumpConfig) (topic : TopicLog) (filter : Filter)
    (asked : Option Text) (start : TopicPosition) : List Event → TopicPosition → Prop
  | start : Session config topic filter asked start [] start
  | reconnect {before : List Event} {position position' : TopicPosition}
      {items : List StreamItem} {event : Event} {id : Text} :
      Session config topic filter asked start before position →
      TopicStream config topic filter position (items ++ [.event event]) →
      (response topic.partitions position (items ++ [.event event])).getLast? =
        some (.record id event) →
      topicPosition asked (some id) = .ok position' →
      Session config topic filter asked start
        (before ++ recordsIn (response topic.partitions position (items ++ [.event event])))
        position'

section Streams

variable {config : PumpConfig} {topic : TopicLog} {filter : Filter} {position : TopicPosition}
  {items : List StreamItem} {p : Int}

theorem partitionPosition_ne_latest (h : position ≠ .latest) :
    partitionPosition position p ≠ .latest := by
  unfold partitionPosition
  split
  · exact Position.noConfusion
  · exact absurd rfl h
  · split
    · exact Position.noConfusion
    · exact Position.noConfusion

theorem eventsOf_event (event : Event) (items : List StreamItem) :
    eventsOf (.event event :: items) = event :: eventsOf items := rfl

theorem eventsOf_error (error : StreamError) (items : List StreamItem) :
    eventsOf (.error error :: items) = eventsOf items := rfl

theorem eventsOf_append (xs ys : List StreamItem) :
    eventsOf (xs ++ ys) = eventsOf xs ++ eventsOf ys :=
  List.filterMap_append

theorem eventsOf_sent (events : List Event) (errors : List StreamError) :
    eventsOf (events.map StreamItem.event ++ errors.map StreamItem.error) = events := by
  rw [eventsOf_append]
  have hevents : eventsOf (events.map StreamItem.event) = events := by
    unfold eventsOf
    rw [List.filterMap_map]
    exact List.filterMap_some
  have herrors : eventsOf (errors.map StreamItem.error) = [] := by
    unfold eventsOf
    rw [List.filterMap_map, List.filterMap_eq_nil_iff]
    exact fun _ _ => rfl
  rw [hevents, herrors, List.append_nil]

/-- Every item is sent in a frame of its own, in order. -/
theorem frames_items (running : Seen) (items : List StreamItem) :
    (frames running items).map Frame.item = items := by
  induction items generalizing running with
  | nil => rfl
  | cons item items ih =>
      cases item with
      | event event => rw [frames, List.map_cons, ih, Frame.item]
      | error error => rw [frames, List.map_cons, ih, Frame.item]

theorem recordsIn_response (covered : List Int) (position : TopicPosition)
    (items : List StreamItem) : recordsIn (response covered position items) = eventsOf items := by
  rw [recordsIn, response, frames_items]

/-- A partition's stream, cut anywhere, is the front of what it is owed. -/
theorem PartitionStream.prefix_owed {log : List Event} {position : Position}
    (h : PartitionStream config log position filter items)
    (hcapacity : 0 < config.queueCapacity) (hne : position ≠ .latest) :
    eventsOf items <+: owedFrom log filter position := by
  obtain ⟨w, s, hreached, hs, hposition, hfilter, hlog, hitems⟩ := h
  obtain ⟨events, errors, hsent, _, hstart⟩ := hreached.exact_delivery hcapacity hs
  have hevents : eventsOf items <+: events := by
    have := hitems.filterMap StreamItem.event?
    rwa [hsent, ← eventsOf, ← eventsOf, eventsOf_sent] at this
  have howed : ∀ start : Cursor, s.resolvedStart w.liveStart = some start →
      eventsOf items <+: (after Event.offset start log).filter filter.matchesEvent := by
    intro start hresolved
    simp only [hresolved] at hstart
    refine (hevents.trans hstart).trans ?_
    rw [Subscriber.owed, hfilter]
    exact (hlog.filter _).filter _
  cases hkind : position with
  | earliest => exact howed ⊥ (by simp only [Subscriber.resolvedStart, hposition, hkind])
  | after offset => exact howed offset (by simp only [Subscriber.resolvedStart, hposition, hkind])
  | latest => exact absurd hkind hne

theorem mem_owedFrom {log : List Event} {position : Position} {e : Event}
    (h : e ∈ owedFrom log filter position) : e ∈ log := by
  unfold owedFrom at h
  split at h
  · exact (mem_after.mp (List.mem_filter.mp h).1).1
  · exact (mem_after.mp (List.mem_filter.mp h).1).1
  · cases h

theorem mem_eventsOf {e : Event} : e ∈ eventsOf items ↔ .event e ∈ items := by
  unfold eventsOf
  rw [List.mem_filterMap]
  constructor
  · rintro ⟨item, hmem, hitem⟩
    cases item with
    | event e' =>
        cases hitem
        exact hmem
    | error err => cases hitem
  · exact fun hmem => ⟨_, hmem, rfl⟩

/-- Where events carry their source's tag, choosing by tag is choosing by
partition. -/
theorem filter_eventsOf {merged : List (Int × StreamItem)}
    (htag : ∀ k e, (k, StreamItem.event e) ∈ merged → e.partition = k) :
    (eventsOf (merged.map (·.2))).filter (fun e => e.partition = p) =
      eventsOf ((merged.filter fun e => e.1 = p).map (·.2)) := by
  induction merged with
  | nil => rfl
  | cons head merged ih =>
      have ih := ih fun k e hmem => htag k e (List.mem_cons_of_mem _ hmem)
      obtain ⟨k, item⟩ := head
      cases item with
      | error error =>
          rw [List.map_cons, eventsOf_error, ih]
          by_cases hk : k = p
          · rw [List.filter_cons_of_pos (by simpa using hk), List.map_cons, eventsOf_error]
          · rw [List.filter_cons_of_neg (by simpa using hk)]
      | event e =>
          have hown := htag k e List.mem_cons_self
          rw [List.map_cons, eventsOf_event]
          by_cases hk : k = p
          · rw [List.filter_cons_of_pos (by simpa [hown] using hk), ih,
              List.filter_cons_of_pos (by simpa using hk), List.map_cons, eventsOf_event]
          · rw [List.filter_cons_of_neg (by simpa [hown] using hk), ih,
              List.filter_cons_of_neg (by simpa using hk)]

/-- Each event of a topic stream stands in the log of its own partition, and
those of one partition are the front of what that partition's stream is owed. -/
theorem TopicStream.spec (h : TopicStream config topic filter position items)
    (hcapacity : 0 < config.queueCapacity) (hne : position ≠ .latest) :
    (∀ e ∈ eventsOf items, e.partition ∈ topic.partitions ∧ e ∈ topic.log e.partition) ∧
      ∀ p ∈ topic.partitions, (eventsOf items).filter (fun e => e.partition = p) <+:
        owedFrom (topic.log p) filter (partitionPosition position p) := by
  obtain ⟨streams, merged, hstreams, hmerged, rfl⟩ := h
  have howed : ∀ p ∈ topic.partitions, eventsOf (streams p) <+:
      owedFrom (topic.log p) filter (partitionPosition position p) := fun p hp =>
    (hstreams p hp).prefix_owed hcapacity (partitionPosition_ne_latest hne)
  have htag : ∀ k e, (k, StreamItem.event e) ∈ merged →
      k ∈ topic.partitions ∧ e ∈ topic.log k ∧ e.partition = k := by
    intro k e hmem
    obtain ⟨hk, hin⟩ := hmerged.mem_source hmem
    have hlog : e ∈ topic.log k := mem_owedFrom ((howed k hk).subset (mem_eventsOf.mpr hin))
    exact ⟨hk, hlog, topic.own k hk e hlog⟩
  constructor
  · intro e he
    obtain ⟨⟨k, _⟩, hmem, rfl⟩ := List.mem_map.mp (mem_eventsOf.mp he)
    obtain ⟨hk, hlog, hown⟩ := htag k e hmem
    rw [hown]
    exact ⟨hk, hlog⟩
  · intro p hp
    rw [filter_eventsOf fun k e hmem => (htag k e hmem).2.2]
    exact ((hmerged.prefix_source p).filterMap _).trans (howed p hp)

end Streams

section Cursors

variable {topic : TopicLog} {filter : Filter} {position : TopicPosition} {running : Seen}
  {items : List StreamItem} {events : List Event} {p : Int}

theorem advance_append (running : Seen) (xs ys : List Event) :
    advance running (xs ++ ys) = advance (advance running xs) ys :=
  List.foldl_append

/-- The cursor knows the last event of each partition, and what it was seeded
with where there was none. -/
theorem lookup_advance (running : Seen) (events : List Event) (p : Int) :
    (advance running events).lookup p =
      (((events.filter fun e => e.partition = p).getLast?).map Event.offset).or
        (running.lookup p) := by
  induction events using List.reverseRecOn with
  | nil => rfl
  | append_singleton events e ih =>
      have hstep : advance running (events ++ [e]) =
          (advance running events).insert e.partition e.offset := by
        rw [advance_append]
        rfl
      rw [hstep, List.filter_append]
      by_cases hp : e.partition = p
      · subst hp
        simp [SortedMap.lookup_insert_self]
      · rw [SortedMap.lookup_insert_ne (Ne.symm hp), ih]
        simp [hp]

theorem mem_keys_advance (h : p ∈ (advance running events).keys) :
    p ∈ running.keys ∨ ∃ e ∈ events, e.partition = p := by
  induction events generalizing running with
  | nil => exact .inl h
  | cons e events ih =>
      rcases ih h with h | ⟨e', he', hp⟩
      · rcases SortedMap.mem_keys_insert h with rfl | h
        · exact .inr ⟨e, List.mem_cons_self, rfl⟩
        · exact .inl h
      · exact .inr ⟨e', List.mem_cons_of_mem _ he', hp⟩

theorem Representable.advance (h : Representable running)
    (hevents : ∀ e ∈ events, PairInRange (e.partition, e.offset)) :
    Representable (advance running events) := by
  induction events generalizing running with
  | nil => exact h
  | cons e events ih =>
      exact ih (h.insert (hevents e List.mem_cons_self))
        fun e he => hevents e (List.mem_cons_of_mem _ he)

/-- The id of an event is the cursor of everything up to it. -/
theorem mem_frames {id : Text} {event : Event} (h : .record id event ∈ frames running items) :
    ∃ before after, eventsOf items = before ++ event :: after ∧
      id = encodeCursor (advance running (before ++ [event])) := by
  induction items generalizing running with
  | nil => cases h
  | cons item items ih =>
      cases item with
      | event e =>
          rcases List.mem_cons.mp h with h | h
          · cases h
            exact ⟨[], eventsOf items, rfl, rfl⟩
          · obtain ⟨before, rest, hevents, hid⟩ := ih h
            exact ⟨e :: before, rest, by rw [eventsOf_event, hevents, List.cons_append], hid⟩
      | error e =>
          rcases List.mem_cons.mp h with h | h
          · cases h
          · exact ih h

theorem frames_append_event (running : Seen) (items : List StreamItem) (event : Event) :
    frames running (items ++ [.event event]) = frames running items ++
      [.record (encodeCursor (advance running (eventsOf (items ++ [.event event])))) event] := by
  induction items generalizing running with
  | nil => rfl
  | cons item items ih =>
      cases item with
      | event e =>
          rw [List.cons_append, frames, frames, ih]
          rfl
      | error e =>
          rw [List.cons_append, frames, frames, ih]
          rfl

theorem entries_ne_nil_of_lookup {cursor : Seen} {offset : Int}
    (h : cursor.lookup p = some offset) : cursor.entries ≠ [] := by
  have hmem := SortedMap.lookup_eq_some_iff.mp h
  exact List.ne_nil_of_mem hmem

/-- The seed starts each partition where the stream does. -/
theorem partitionPosition_seed (hp : p ∈ topic.partitions) (hne : position ≠ .latest) :
    partitionPosition (.after (seed topic.partitions position)) p =
      partitionPosition position p := by
  cases position with
  | earliest => rfl
  | latest => exact absurd rfl hne
  | after cursor =>
      simp only [partitionPosition, seed, SortedMap.lookup_retain (List.contains_iff_mem.mpr hp)]

theorem mem_keys_seed (h : p ∈ (seed topic.partitions position).keys) : p ∈ topic.partitions := by
  unfold seed at h
  split at h
  · exact List.contains_iff_mem.mp (SortedMap.mem_keys_retain h)
  · cases h
  · cases h

theorem seed_representable (h : StartInRange position) :
    Representable (seed topic.partitions position) := by
  cases position with
  | earliest => exact fun _ hmem => (by cases hmem)
  | latest => exact fun _ hmem => (by cases hmem)
  | after cursor => exact fun pair hmem => h pair (List.mem_filter.mp hmem).1

end Cursors

section Resume

variable {config : PumpConfig} {topic : TopicLog} {filter : Filter} {asked : Option Text}
  {start position : TopicPosition} {items : List StreamItem} {events before : List Event}

/-- What a partition has delivered, then what it owes from the cursor it left
behind, is what it owed. -/
theorem owedFrom_advance {p : Int} (hp : p ∈ topic.partitions) (hne : position ≠ .latest)
    (h : events.filter (fun e => e.partition = p) <+:
      owedFrom (topic.log p) filter (partitionPosition position p)) :
    events.filter (fun e => e.partition = p) ++ owedFrom (topic.log p) filter
        (partitionPosition (.after (advance (seed topic.partitions position) events)) p) =
      owedFrom (topic.log p) filter (partitionPosition position p) := by
  have hlookup := lookup_advance (seed topic.partitions position) events p
  rcases List.eq_nil_or_concat (events.filter fun e => e.partition = p) with hnil | ⟨seen, e, hseen⟩
  · rw [hnil] at hlookup ⊢
    have hsame : partitionPosition (.after (advance (seed topic.partitions position) events)) p =
        partitionPosition (.after (seed topic.partitions position)) p := by
      simp only [partitionPosition, hlookup, List.getLast?_nil, Option.map_none, Option.none_or]
    rw [List.nil_append, hsame, partitionPosition_seed hp hne]
  · rw [List.concat_eq_append] at hseen
    rw [hseen] at hlookup h ⊢
    have hstart : partitionPosition (.after (advance (seed topic.partitions position) events)) p =
        .after e.offset := by
      simp only [partitionPosition, hlookup, List.getLast?_concat, Option.map_some,
        Option.some_or]
    rw [hstart]
    have hascending := topic.ascending p hp
    cases hposition : partitionPosition position p with
    | earliest =>
        rw [hposition] at h
        exact after_filter_split hascending h
    | after offset =>
        rw [hposition] at h
        exact after_filter_split hascending h
    | latest => exact absurd hposition (partitionPosition_ne_latest hne)

/-- Any id a stream sends parses to the cursor it was made from, which is the
one its events advance the seed to and covers partitions of the topic only. -/
theorem TopicStream.id_parses (h : TopicStream config topic filter position items)
    (hcapacity : 0 < config.queueCapacity) (hne : position ≠ .latest)
    (hrange : StartInRange position) {before after : List Event} {event : Event}
    (hevents : eventsOf items = before ++ event :: after) :
    parseCursor (encodeCursor (advance (seed topic.partitions position) (before ++ [event]))) =
        .ok (advance (seed topic.partitions position) (before ++ [event])) ∧
      Representable (advance (seed topic.partitions position) (before ++ [event])) ∧
      ∀ p ∈ (advance (seed topic.partitions position) (before ++ [event])).keys,
        p ∈ topic.partitions := by
  have hmem : ∀ e ∈ before ++ [event], e ∈ eventsOf items := by
    intro e he
    rw [hevents, List.append_cons]
    exact List.mem_append_left _ he
  have hlog := (h.spec hcapacity hne).1
  have hrepresentable : Representable
      (advance (seed topic.partitions position) (before ++ [event])) :=
    (seed_representable hrange).advance fun e he =>
      topic.inRange _ (hlog e (hmem e he)).1 e (hlog e (hmem e he)).2
  have hlookup : (advance (seed topic.partitions position) (before ++ [event])).lookup
      event.partition = some event.offset := by
    rw [advance_append]
    exact SortedMap.lookup_insert_self
  refine ⟨parseCursor_encodeCursor hrepresentable (entries_ne_nil_of_lookup hlookup),
    hrepresentable, fun p hp => ?_⟩
  rcases mem_keys_advance hp with hp | ⟨e, he, rfl⟩
  · exact mem_keys_seed hp
  · exact (hlog e (hmem e he)).1

structure Composes (topic : TopicLog) (filter : Filter) (start : TopicPosition)
    (before : List Event) (position : TopicPosition) : Prop where
  placed : position ≠ .latest
  inRange : StartInRange position
  owed : ∀ p ∈ topic.partitions, before.filter (fun e => e.partition = p) ++
      owedFrom (topic.log p) filter (partitionPosition position p) =
    owedFrom (topic.log p) filter (partitionPosition start p)

/-- The step: a reconnect with the last id composes. -/
theorem Composes.reconnect (h : Composes topic filter start before position)
    {position' : TopicPosition} {event : Event} {id : Text} (hcapacity : 0 < config.queueCapacity)
    (hstream : TopicStream config topic filter position (items ++ [.event event]))
    (hlast : (response topic.partitions position (items ++ [.event event])).getLast? =
      some (.record id event))
    (hresume : topicPosition asked (some id) = .ok position') :
    Composes topic filter start
      (before ++ recordsIn (response topic.partitions position (items ++ [.event event])))
      position' := by
  have hevents : eventsOf (items ++ [.event event]) = eventsOf items ++ event :: [] :=
    eventsOf_append _ _
  obtain ⟨hparse, hrepresentable, _⟩ :=
    hstream.id_parses hcapacity h.placed h.inRange hevents
  rw [← hevents] at hparse hrepresentable
  rw [response, frames_append_event, List.getLast?_concat, Option.some.injEq,
    Frame.record.injEq] at hlast
  obtain ⟨rfl, _⟩ := hlast
  rw [topicPosition, hparse] at hresume
  cases hresume
  refine ⟨TopicPosition.noConfusion, hrepresentable, fun p hp => ?_⟩
  have hbefore := (hstream.spec hcapacity h.placed).2 p hp
  rw [recordsIn_response, List.filter_append, List.append_assoc,
    owedFrom_advance hp h.placed hbefore]
  exact h.owed p hp

theorem Session.composes (h : Session config topic filter asked start before position)
    (hcapacity : 0 < config.queueCapacity) (hne : start ≠ .latest) (hrange : StartInRange start) :
    Composes topic filter start before position := by
  induction h with
  | start => exact ⟨hne, hrange, fun _ _ => rfl⟩
  | reconnect _ hstream hlast hresume ih => exact ih.reconnect hcapacity hstream hlast hresume

/-- In every session each item is answered with a frame of its own, in order, and
the records read before the last reconnect and after it are, partition by
partition, what a client that never disconnected is owed, up to what the last
stream has still to send; they agree with any such client's as far as both go.
Every id parses to the cursor it was made from and names only the topic's
partitions. -/
theorem Session.resume_exact {resume : Option Text}
    (h : Session config topic filter asked start before position)
    (hcapacity : 0 < config.queueCapacity) (hstart : topicPosition asked resume = .ok start)
    (hne : start ≠ .latest) (hstream : TopicStream config topic filter position items) :
    (response topic.partitions position items).map Frame.item = items ∧
      (∀ p ∈ topic.partitions, ∃ left,
        (recordsIn (response topic.partitions position items)).filter
              (fun e => e.partition = p) ++ left =
            owedFrom (topic.log p) filter (partitionPosition position p) ∧
          (before ++ recordsIn (response topic.partitions position items)).filter
              (fun e => e.partition = p) ++ left =
            owedFrom (topic.log p) filter (partitionPosition start p)) ∧
      (∀ whole, TopicStream config topic filter start whole → ∀ p ∈ topic.partitions,
        (recordsIn (response topic.partitions start whole)).filter (fun e => e.partition = p) <+:
            (before ++ recordsIn (response topic.partitions position items)).filter
              (fun e => e.partition = p) ∨
          (before ++ recordsIn (response topic.partitions position items)).filter
              (fun e => e.partition = p) <+:
            (recordsIn (response topic.partitions start whole)).filter
              (fun e => e.partition = p)) ∧
      ∀ id event, Frame.record id event ∈ response topic.partitions position items →
        ∃ cursor, id = encodeCursor cursor ∧ parseCursor id = .ok cursor ∧
          ∀ p ∈ cursor.keys, p ∈ topic.partitions := by
  have hinv := h.composes hcapacity hne (topicPosition_inRange hstart)
  have hleft : ∀ p ∈ topic.partitions, ∃ left,
      (eventsOf items).filter (fun e => e.partition = p) ++ left =
          owedFrom (topic.log p) filter (partitionPosition position p) ∧
        (before ++ eventsOf items).filter (fun e => e.partition = p) ++ left =
          owedFrom (topic.log p) filter (partitionPosition start p) := by
    intro p hp
    obtain ⟨left, hleft⟩ := (hstream.spec hcapacity hinv.placed).2 p hp
    refine ⟨left, hleft, ?_⟩
    rw [List.filter_append, List.append_assoc, hleft]
    exact hinv.owed p hp
  simp only [recordsIn_response]
  refine ⟨frames_items _ items, hleft, ?_, ?_⟩
  · intro whole hwhole p hp
    obtain ⟨left, _, hresumed⟩ := hleft p hp
    exact List.prefix_or_prefix_of_prefix ((hwhole.spec hcapacity hne).2 p hp) ⟨left, hresumed⟩
  · intro id event hmem
    obtain ⟨_, _, hevents, rfl⟩ := mem_frames hmem
    obtain ⟨hparse, _, hkeys⟩ := hstream.id_parses hcapacity hinv.placed hinv.inRange hevents
    exact ⟨_, rfl, hparse, hkeys⟩

end Resume

section TwoPartitions

def roomyConfig : PumpConfig :=
  { ringCapacity := 1, queueCapacity := 4, maxConsecutiveErrors := 0, idleShutdown := true }

def ordersRecord (p offset : Int) : Event := Event.at "orders" p offset 0

def ordersLog (p : Int) : List Event :=
  if p = 0 then [ordersRecord 0 3, ordersRecord 0 8] else [ordersRecord 1 5]

def orders : TopicLog where
  partitions := [0, 1]
  log := ordersLog
  ascending p _ := by
    unfold Ascending ordersLog
    split
    · decide
    · decide
  own := by decide
  inRange := by decide

/-- A pump is asked for `position` and fetches what is due in one batch. -/
def catchUpActions (position : Position) (due : List Event) : List Action :=
  [.tick, .command (.subscribe position .default), .noCommand, .liveStart (.ok (9 : Int)),
    .fetched (.ok { events := [], nextAfter := (9 : Int) }), .tick, .tick, .tick, .tick,
    .fetched (.ok { events := due, nextAfter := (9 : Int) })] ++ List.replicate due.length .tick

def caughtUp (p : Int) (position : Position) (due : List Event) : World :=
  (runActions World.Honours (World.step roomyConfig)
      (World.start roomyConfig (ordersLog p) (9 : Int)) (catchUpActions position due)).getD
    (World.start roomyConfig (ordersLog p) (9 : Int))

theorem ordersLog_spawned (p : Int) :
    World.Spawned roomyConfig (World.start roomyConfig (ordersLog p) (9 : Int)) where
  ascending := by
    show Ascending Event.offset (ordersLog p)
    unfold Ascending ordersLog
    split
    · decide
    · decide
  below := by
    show ∀ e ∈ ordersLog p, (e.offset : Cursor) ≤ (9 : Int)
    unfold ordersLog
    split
    · decide
    · decide
  start := rfl

theorem caughtUp_stream {p : Int} {position : Position} (due : List Event)
    (hrun : runActions World.Honours (World.step roomyConfig)
      (World.start roomyConfig (ordersLog p) (9 : Int)) (catchUpActions position due) =
        some (caughtUp p position due))
    (hlog : (caughtUp p position due).log = ordersLog p)
    (hsub : ∃ s ∈ (caughtUp p position due).pump.subs.list, s.position = position ∧
      s.state.filter = .default ∧ s.state.sender.sent = due.map .event) :
    PartitionStream roomyConfig (orders.log p) position .default (due.map .event) := by
  obtain ⟨s, hs, hposition, hfilter, hsent⟩ := hsub
  exact ⟨_, s, .of_run _ (.start (ordersLog_spawned p)) hrun, List.mem_append_left _ hs, hposition,
    hfilter, ⟨[], by rw [hlog, List.append_nil]; rfl⟩, ⟨[], by rw [hsent, List.append_nil]⟩⟩

theorem zero_from_earliest : PartitionStream roomyConfig (orders.log 0) .earliest .default
    [.event (ordersRecord 0 3), .event (ordersRecord 0 8)] :=
  caughtUp_stream [ordersRecord 0 3, ordersRecord 0 8] rfl rfl
    ⟨_, List.mem_cons_self, rfl, rfl, rfl⟩

theorem zero_after_three : PartitionStream roomyConfig (orders.log 0) (.after 3) .default
    [.event (ordersRecord 0 8)] :=
  caughtUp_stream [ordersRecord 0 8] rfl rfl ⟨_, List.mem_cons_self, rfl, rfl, rfl⟩

theorem one_from_earliest : PartitionStream roomyConfig (orders.log 1) .earliest .default
    [.event (ordersRecord 1 5)] :=
  caughtUp_stream [ordersRecord 1 5] rfl rfl ⟨_, List.mem_cons_self, rfl, rfl, rfl⟩

def seenThree : Seen := SortedMap.empty.insert 0 3

theorem first_stream : TopicStream roomyConfig orders .default .earliest
    [.event (ordersRecord 0 3)] := by
  refine ⟨fun p => if p = 0 then [.event (ordersRecord 0 3), .event (ordersRecord 0 8)]
    else [.event (ordersRecord 1 5)], [(0, .event (ordersRecord 0 3))], ?_, ?_, rfl⟩
  · intro p hp
    rcases List.mem_cons.mp hp with rfl | hp
    · exact zero_from_earliest
    · obtain rfl := List.mem_singleton.mp hp
      exact one_from_earliest
  · exact .next (by decide) rfl (.nil _)

theorem second_stream : TopicStream roomyConfig orders .default (.after seenThree)
    [.event (ordersRecord 1 5), .event (ordersRecord 0 8)] := by
  refine ⟨fun p => if p = 0 then [.event (ordersRecord 0 8)] else [.event (ordersRecord 1 5)],
    [(1, .event (ordersRecord 1 5)), (0, .event (ordersRecord 0 8))], ?_, ?_, rfl⟩
  · intro p hp
    rcases List.mem_cons.mp hp with rfl | hp
    · exact zero_after_three
    · obtain rfl := List.mem_singleton.mp hp
      exact one_from_earliest
  · exact .next (by decide) rfl (.next (by decide) rfl (.nil _))

theorem resumed_session : Session roomyConfig orders .default (some "earliest".toList) .earliest
    [ordersRecord 0 3] (.after seenThree) := by
  have hlast : (response orders.partitions .earliest
      ([] ++ [.event (ordersRecord 0 3)])).getLast? =
        some (.record "0:3".toList (ordersRecord 0 3)) := by decide +kernel
  have hresume : topicPosition (some "earliest".toList) (some "0:3".toList) =
      .ok (.after seenThree) := by decide +kernel
  exact .reconnect .start first_stream hlast hresume

/-- Cut after one record and resumed with "0:3", partition 0 goes on behind it. -/
theorem Session.resume_exact_orders :
    (response orders.partitions (.after seenThree)
        [.event (ordersRecord 1 5), .event (ordersRecord 0 8)]).map Frame.item =
          [.event (ordersRecord 1 5), .event (ordersRecord 0 8)] ∧
      ∃ left,
        (recordsIn (response orders.partitions (.after seenThree)
            [.event (ordersRecord 1 5), .event (ordersRecord 0 8)])).filter
              (fun e => e.partition = 0) ++ left =
            owedFrom (orders.log 0) .default (partitionPosition (.after seenThree) 0) ∧
          ([ordersRecord 0 3] ++ recordsIn (response orders.partitions (.after seenThree)
              [.event (ordersRecord 1 5), .event (ordersRecord 0 8)])).filter
                (fun e => e.partition = 0) ++ left =
            owedFrom (orders.log 0) .default (partitionPosition .earliest 0) := by
  have hstart : topicPosition (some "earliest".toList) none = .ok .earliest := by decide +kernel
  obtain ⟨hitems, hrecords, _⟩ :=
    resumed_session.resume_exact (by decide) hstart (by decide) second_stream
  exact ⟨hitems, hrecords 0 (by decide)⟩

end TwoPartitions

end Odradek.Web
