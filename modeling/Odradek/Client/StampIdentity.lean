import Odradek.Client.Conserves
import Odradek.Library.Sequenced

/-!
The stamps of an idempotent producer, over whole runs. A partition's transmissions and
acknowledgements are those of a sender of numbered records: the counter is the number
next in line, and a batch that failed is owed. A batch that goes out under the number of
one that failed, with other records, is taken for it by the broker.
-/

namespace Odradek.Client

open Library Library.Service Odradek.Protocol ProducerWorld Producer

section Signals

/-- The numbers a stamped batch takes, and its records. -/
def Parcel.span (parcel : Parcel) (stamp : BatchStamp) : Span Record :=
  { base := stamp.baseSequence.toInt, items := parcel.pending.records }

/-- What an event is to the sender of a partition. -/
def signalAt (key : PartitionKey) : ProducerEvent → Option (Signal Record)
  | .sent parcel _ applied =>
    if parcel.key = key then parcel.stamp.map fun stamp => .sent (parcel.span stamp) applied
    else none
  | .acked key' _ => if key' = key then some .acked else none
  | _ => none

def signalsAt (key : PartitionKey) (log : ProducerLog) : List (Signal Record) :=
  log.filterMap fun entry => signalAt key entry.1

def ackedBatch (key : PartitionKey) : ProducerEvent → Option (List Record)
  | .acked key' records => if key' = key then some records else none
  | _ => none

def ackedBatches (key : PartitionKey) (log : ProducerLog) : List (List Record) :=
  log.filterMap fun entry => ackedBatch key entry.1

def senderAt (key : PartitionKey) (log : ProducerLog) : Sender Record :=
  .position (signalsAt key log)

/-- Transmissions under one stamp carry the same records. -/
def StampsIdentify (log : ProducerLog) : Prop :=
  ∀ (parcel parcel' : Parcel) (set set' : Bytes) (applied applied' : Bool) (p p' : Producer)
    (stamp stamp' : BatchStamp),
    (ProducerEvent.sent parcel set applied, p) ∈ log →
    (ProducerEvent.sent parcel' set' applied', p') ∈ log →
    parcel.stamp = some stamp → parcel'.stamp = some stamp' →
    stamp.producerId = stamp'.producerId → stamp.producerEpoch = stamp'.producerEpoch →
    parcel.key = parcel'.key → stamp.baseSequence = stamp'.baseSequence →
    parcel.pending.records = parcel'.pending.records

/-- The broker of a partition has accepted what the run says it accepted. -/
def Brokered (key : PartitionKey) (log : ProducerLog) : Prop :=
  (Receiver.received (signalsAt key log)).isSome

/-- Each acknowledged batch is in the broker's log under its own sequence, once. -/
def LoggedOnce (key : PartitionKey) (log : ProducerLog) : Prop :=
  ∃ (r : Receiver Record) (spans : List (Span Record)), Receiver.received (signalsAt key log) =
    some r ∧ spans.Sublist r.taken ∧
    spans.map (·.items) = ackedBatches key log ∧ (r.taken.map (·.base)).Nodup

end Signals

section Runs

inductive Sends (config : ProducerConfig) (s : ProducerWorld) :
    ProducerCall → PartitionKey → List Record → Prop
  | produce (key : PartitionKey) (records : List Record) :
      Sends config s (.produce key records) key records
  | enqueue (key : PartitionKey) (record : Record) : Fills config s.producer key record →
      Sends config s (.enqueue key record) key ((s.producer.push key record).slot key).records
  | enqueueKeyed (topic : String) (partition : Int32) (record : Record) :
      Fills config s.producer (topic, partition) record →
      Sends config s (.enqueueKeyed topic record) (topic, partition)
        ((s.producer.push (topic, partition) record).slot (topic, partition)).records
  | flush (key : PartitionKey) : key ∈ s.producer.pending.keys →
      Sends config s .flush key (s.producer.slot key).records
  | commit (key : PartitionKey) : key ∈ s.producer.pending.keys →
      Sends config s .commitTransaction key (s.producer.slot key).records

/-- A batch for a partition whose last one went out and was not acknowledged is that one
again, and none runs past `i32::MAX`. -/
def Repeats (s : ProducerWorld) (key : PartitionKey) (records : List Record) : Prop :=
  (records ≠ [] → ∀ owed, (senderAt key s.log).owed = some owed → owed = records) ∧
    (counter s.producer key).toInt + records.length ≤ i32Max

/-- The states of a producer whose calls repeat what they owe. -/
abbrev RepeatingSessions (codecs : Codecs) (config : ProducerConfig) : ProducerWorld → Prop :=
  Reachable (· = .fresh config) fun s call t =>
    (requireProducible s.producer.txnState = .ok () →
      ∀ key records, Sends config s call key records → Repeats s key records) ∧
      ∃ r, (producerService codecs config).Ends (ProducerCall.body config call) s (some r) t

end Runs

section Logs

variable {s t : ProducerWorld} {event : ProducerEvent} {p : Producer}

theorem signalsAt_append (key : PartitionKey) (log : ProducerLog) (event : ProducerEvent)
    (p : Producer) :
    signalsAt key (log ++ [(event, p)]) = signalsAt key log ++ (signalAt key event).toList := by
  unfold signalsAt
  rw [List.filterMap_append]
  cases h : signalAt key event with
  | none => simp only [List.filterMap_cons, h, List.filterMap_nil, Option.toList_none]
  | some signal => simp only [List.filterMap_cons, h, List.filterMap_nil, Option.toList_some]

theorem ackedBatches_append (key : PartitionKey) (log : ProducerLog) (event : ProducerEvent)
    (p : Producer) :
    ackedBatches key (log ++ [(event, p)]) =
      ackedBatches key log ++ (ackedBatch key event).toList := by
  unfold ackedBatches
  rw [List.filterMap_append]
  cases h : ackedBatch key event with
  | none => simp only [List.filterMap_cons, h, List.filterMap_nil, Option.toList_none]
  | some records => simp only [List.filterMap_cons, h, List.filterMap_nil, Option.toList_some]

def Quiet (event : ProducerEvent) : Prop :=
  (∀ parcel set applied, event ≠ .sent parcel set applied) ∧ NotAck event

theorem Quiet.signal_eq (h : Quiet event) (key : PartitionKey) : signalAt key event = none := by
  cases event with
  | sent parcel set applied => exact absurd rfl (h.1 parcel set applied)
  | acked key records => exact absurd rfl (h.2 key records)
  | _ => rfl

theorem ackedBatch_eq_none (h : NotAck event) (key : PartitionKey) :
    ackedBatch key event = none := by
  cases event with
  | acked key records => exact absurd rfl (h key records)
  | _ => rfl

theorem Tells.signals_eq (h : Tells Quiet s t) (key : PartitionKey) :
    signalsAt key t.log = signalsAt key s.log := by
  obtain ⟨new, hnew, hquiet⟩ := h
  have hnone : signalsAt key new = [] :=
    List.filterMap_eq_nil_iff.mpr fun entry hentry => (hquiet entry hentry).signal_eq key
  rw [hnew, signalsAt, List.filterMap_append]
  exact (congrArg _ hnone).trans (List.append_nil _)

theorem Tells.acked_eq (h : Tells NotAck s t) (key : PartitionKey) :
    ackedBatches key t.log = ackedBatches key s.log := by
  obtain ⟨new, hnew, hnotAck⟩ := h
  have hnone : ackedBatches key new = [] :=
    List.filterMap_eq_nil_iff.mpr fun entry hentry => ackedBatch_eq_none (hnotAck entry hentry) key
  rw [hnew, ackedBatches, List.filterMap_append]
  exact (congrArg _ hnone).trans (List.append_nil _)

theorem Tells.sent_mem (h : Tells Quiet s t) {parcel : Parcel} {set : Bytes} {applied : Bool}
    (hmem : (ProducerEvent.sent parcel set applied, p) ∈ t.log) :
    (ProducerEvent.sent parcel set applied, p) ∈ s.log := by
  obtain ⟨new, hnew, hquiet⟩ := h
  rw [hnew] at hmem
  obtain hmem | hmem := List.mem_append.mp hmem
  · exact hmem
  · exact absurd rfl ((hquiet _ hmem).1 parcel set applied)

end Logs

section Invariant

variable {s t : ProducerWorld} {fallen aloft : List Parcel}

def stampedBy (identity : Option ProducerIdentity) (stamp : BatchStamp) : Prop :=
  identity = some { id := stamp.producerId, epoch := stamp.producerEpoch }

/-- A batch that was stamped, with the counter advanced past it. -/
structure Ready (w : ProducerWorld) (parcel : Parcel) (stamp : BatchStamp) : Prop where
  stamped : parcel.stamp = some stamp
  identity : stampedBy w.producer.identity stamp
  numbered : (senderAt parcel.key w.log).base = stamp.baseSequence.toInt
  repeats : parcel.pending.records ≠ [] →
    ∀ owed, (senderAt parcel.key w.log).owed = some owed → owed = parcel.pending.records
  counted : (counter w.producer parcel.key).toInt =
    stamp.baseSequence.toInt + parcel.pending.records.length

/-- Every counter is the number next in line, but for the batches in flight and for those that
failed, whose counters are not rewound yet. -/
structure Underway (fallen aloft : List Parcel) (w : ProducerWorld) : Prop where
  identified : ∀ (parcel : Parcel) (set : Bytes) (applied : Bool) (p : Producer)
    (stamp : BatchStamp), (ProducerEvent.sent parcel set applied, p) ∈ w.log →
    parcel.stamp = some stamp → stampedBy w.producer.identity stamp
  follows : ∀ key, Sender.Follows (signalsAt key w.log)
  acked : ∀ key, (senderAt key w.log).acked.map (·.items) = ackedBatches key w.log
  counted : ∀ key, key ∉ (fallen ++ aloft).map (·.key) →
    (senderAt key w.log).base = (counter w.producer key).toInt
  failed : ∀ parcel ∈ fallen, ∃ stamp, parcel.stamp = some stamp ∧
    (senderAt parcel.key w.log).base = stamp.baseSequence.toInt
  flying : ∀ parcel ∈ aloft, ∃ stamp, Ready w parcel stamp
  nodup : ((fallen ++ aloft).map (·.key)).Nodup

/-- What tells of nothing that is sent or acknowledged, and leaves the counters. -/
theorem Underway.quiet (h : Underway fallen aloft s)
    (hidentity : s.producer.identity ≠ none → t.producer.identity = s.producer.identity)
    (hsequences : t.producer.sequences = s.producer.sequences) (htells : Tells Quiet s t) :
    Underway fallen aloft t := by
  have hsender (key : PartitionKey) : senderAt key t.log = senderAt key s.log := by
    rw [senderAt, htells.signals_eq, senderAt]
  have hcounter (key : PartitionKey) : counter t.producer key = counter s.producer key := by
    rw [counter, hsequences, counter]
  have hstamped {stamp : BatchStamp} (hstamp : stampedBy s.producer.identity stamp) :
      stampedBy t.producer.identity stamp := by
    have hsome : s.producer.identity ≠ none := by
      rw [hstamp]
      exact Option.some_ne_none _
    exact (hidentity hsome).trans hstamp
  refine ⟨?_, ?_, ?_, ?_, ?_, ?_, h.nodup⟩
  · intro parcel set applied p stamp hmem hstamp
    exact hstamped (h.identified parcel set applied p stamp (htells.sent_mem hmem) hstamp)
  · intro key
    rw [htells.signals_eq]
    exact h.follows key
  · intro key
    rw [hsender, (htells.mono fun _ => And.right).acked_eq]
    exact h.acked key
  · intro key hkey
    rw [hsender, hcounter]
    exact h.counted key hkey
  · intro parcel hparcel
    rw [hsender]
    exact h.failed parcel hparcel
  · intro parcel hparcel
    obtain ⟨stamp, hready⟩ := h.flying parcel hparcel
    refine ⟨stamp, hready.stamped, hstamped hready.identity, ?_, ?_, ?_⟩
    · rw [hsender]
      exact hready.numbered
    · rw [hsender]
      exact hready.repeats
    · rw [hcounter]
      exact hready.counted

variable {parcel : Parcel} {stamp : BatchStamp} {set : Bytes} {applied : Bool}

theorem signalAt_sent (hstamp : parcel.stamp = some stamp) (key : PartitionKey) :
    (signalAt key (.sent parcel set applied)).toList =
      if parcel.key = key then [.sent (parcel.span stamp) applied] else [] := by
  simp only [signalAt, hstamp, Option.map_some]
  split <;> rfl

theorem senderAt_sent (hstamp : parcel.stamp = some stamp) (key : PartitionKey) :
    senderAt key (s.note (.sent parcel set applied)).log =
      if parcel.key = key then (senderAt key s.log).after (.sent (parcel.span stamp) applied)
      else senderAt key s.log := by
  unfold senderAt
  rw [ProducerWorld.note, signalsAt_append, signalAt_sent hstamp]
  split
  · exact Sender.position_append
  · rw [List.append_nil]

/-- A batch in flight goes out. -/
theorem Underway.sent (h : Underway fallen (parcel :: aloft) s)
    (hrecords : parcel.pending.records ≠ []) :
    Underway fallen (parcel :: aloft) (s.note (.sent parcel set applied)) := by
  obtain ⟨stamp, hready⟩ := h.flying parcel List.mem_cons_self
  have hsender (key : PartitionKey) : senderAt key (s.note (.sent parcel set applied)).log =
      if parcel.key = key then (senderAt key s.log).after (.sent (parcel.span stamp) applied)
      else senderAt key s.log := senderAt_sent hready.stamped key
  have hother {key : PartitionKey} (hkey : parcel.key ≠ key) :
      senderAt key (s.note (.sent parcel set applied)).log = senderAt key s.log := by
    rw [hsender, if_neg hkey]
  have hallows : (senderAt parcel.key s.log).Allows (.sent (parcel.span stamp) applied) :=
    ⟨hready.numbered.symm, hrecords, hready.repeats hrecords⟩
  have hmine := List.nodup_cons.mp (List.nodup_middle.mp
    (by simpa only [List.map_append, List.map_cons] using h.nodup))
  refine ⟨?_, fun key => ?_, fun key => ?_, fun key hkey => ?_, fun other hmem => ?_,
    fun other hmem => ?_, h.nodup⟩
  · intro other set' applied' p stamp' hmem hstamp'
    obtain hmem | hmem := List.mem_append.mp hmem
    · exact h.identified other set' applied' p stamp' hmem hstamp'
    · cases List.mem_singleton.mp hmem
      cases hready.stamped.symm.trans hstamp'
      exact hready.identity
  · rw [ProducerWorld.note, signalsAt_append, signalAt_sent hready.stamped]
    split
    next hkey =>
      subst hkey
      exact (h.follows parcel.key).append hallows
    next =>
      rw [List.append_nil]
      exact h.follows key
  · have hacked : (senderAt key (s.note (.sent parcel set applied)).log).acked =
        (senderAt key s.log).acked := by
      rw [hsender]
      split <;> rfl
    rw [hacked, ProducerWorld.note, ackedBatches_append, h.acked]
    exact (List.append_nil _).symm
  · have hne : parcel.key ≠ key := fun heq => hkey (by simp [heq])
    rw [hother hne]
    exact h.counted key hkey
  · have hne : parcel.key ≠ other.key := fun heq =>
      hmine.1 (List.mem_append_left _ (heq ▸ List.mem_map_of_mem hmem))
    rw [hother hne]
    exact h.failed other hmem
  · obtain rfl | hmem := List.mem_cons.mp hmem
    · refine ⟨stamp, hready.stamped, hready.identity, ?_, ?_, hready.counted⟩
      · rw [hsender, if_pos rfl]
        rfl
      · rw [hsender, if_pos rfl]
        rintro _ owed ⟨⟩
        rfl
    · have hne : parcel.key ≠ other.key := fun heq =>
        hmine.1 (List.mem_append_right _ (heq ▸ List.mem_map_of_mem hmem))
      obtain ⟨stamp', hready'⟩ := h.flying other (List.mem_cons_of_mem _ hmem)
      refine ⟨stamp', hready'.stamped, hready'.identity, ?_, ?_, hready'.counted⟩
      · rw [hother hne]
        exact hready'.numbered
      · rw [hother hne]
        exact hready'.repeats

theorem senderAt_acked {k : PartitionKey} {records : List Record} {p : Producer}
    {log : ProducerLog} (key : PartitionKey) :
    senderAt key (log ++ [(.acked k records, p)]) =
      if k = key then (senderAt key log).after .acked else senderAt key log := by
  unfold senderAt
  rw [signalsAt_append]
  simp only [signalAt]
  split
  · exact Sender.position_append
  · rw [Option.toList_none, List.append_nil]

/-- The batch that went out last is acknowledged. -/
theorem Underway.acknowledged (h : Underway fallen (parcel :: aloft) s)
    (hrecords : parcel.pending.records ≠ []) :
    Underway fallen aloft (((s.note (.sent parcel set true)).letGo parcel.key).note
      (.acked parcel.key parcel.pending.records)) := by
  have hsent : Underway fallen (parcel :: aloft) (s.note (.sent parcel set true)) :=
    h.sent hrecords
  obtain ⟨stamp, hready⟩ := h.flying parcel List.mem_cons_self
  have hsender : senderAt parcel.key (s.note (.sent parcel set true)).log =
      { senderAt parcel.key s.log with
        base := stamp.baseSequence.toInt, owed := some parcel.pending.records,
          answered := true } := by
    rw [senderAt_sent hready.stamped, if_pos rfl]
    rfl
  generalize s.note (.sent parcel set true) = w at hsent hsender ⊢
  have hafter (key : PartitionKey) : senderAt key ((w.letGo parcel.key).note
      (.acked parcel.key parcel.pending.records)).log =
      if parcel.key = key then (senderAt key w.log).after .acked else senderAt key w.log :=
    senderAt_acked key
  have hother {key : PartitionKey} (hkey : parcel.key ≠ key) :
      senderAt key ((w.letGo parcel.key).note (.acked parcel.key parcel.pending.records)).log =
        senderAt key w.log := by
    rw [hafter, if_neg hkey]
  have hmine := List.nodup_cons.mp (List.nodup_middle.mp
    (by simpa only [List.map_append, List.map_cons] using h.nodup))
  refine ⟨?_, fun key => ?_, fun key => ?_, fun key hkey => ?_, fun other hmem => ?_,
    fun other hmem => ?_, ?_⟩
  · intro other set' applied' p stamp' hmem hstamp'
    obtain hmem | hmem := List.mem_append.mp hmem
    · exact hsent.identified other set' applied' p stamp' hmem hstamp'
    · cases List.mem_singleton.mp hmem
  · show Sender.Follows (signalsAt key (w.log ++ [_]))
    rw [signalsAt_append]
    simp only [signalAt]
    split
    next hkey =>
      subst hkey
      refine (hsent.follows parcel.key).append ?_
      show (senderAt parcel.key w.log).answered = true
      rw [hsender]
    next =>
      rw [Option.toList_none, List.append_nil]
      exact hsent.follows key
  · rw [hafter]
    show _ = ackedBatches key (w.log ++ [_])
    rw [ackedBatches_append, ← hsent.acked]
    simp only [ackedBatch]
    split
    next hkey =>
      subst hkey
      rw [hsender]
      simp only [Sender.after, List.map_append, List.map_cons, List.map_nil, Option.toList_some]
    next => rw [Option.toList_none, List.append_nil]
  · by_cases hne : parcel.key = key
    · subst hne
      rw [hafter, if_pos rfl, hsender]
      obtain ⟨stamp', hflying⟩ := hsent.flying parcel List.mem_cons_self
      cases hready.stamped.symm.trans hflying.stamped
      exact hflying.counted.symm
    · rw [hother hne]
      refine hsent.counted key fun hmem => hkey ?_
      simpa [Ne.symm hne] using hmem
  · have hne : parcel.key ≠ other.key := fun heq =>
      hmine.1 (List.mem_append_left _ (heq ▸ List.mem_map_of_mem hmem))
    rw [hother hne]
    exact hsent.failed other hmem
  · have hne : parcel.key ≠ other.key := fun heq =>
      hmine.1 (List.mem_append_right _ (heq ▸ List.mem_map_of_mem hmem))
    obtain ⟨stamp', hready'⟩ := hsent.flying other (List.mem_cons_of_mem _ hmem)
    refine ⟨stamp', hready'.stamped, hready'.identity, ?_, ?_, hready'.counted⟩
    · rw [hother hne]
      exact hready'.numbered
    · rw [hother hne]
      exact hready'.repeats
  · rw [List.map_append]
    exact hmine.2

theorem attempt_failed {a : Answer Int64} {e : ClientError} (h : a.result = .error e) :
    s.attempt parcel set a = if a.sent then s.note (.sent parcel set a.applied) else s := by
  unfold attempt
  rw [h]
  rfl

theorem attempt_answered {a : Answer Int64} {baseOffset : Int64} (h : a.result = .ok baseOffset)
    (hsound : a.sound = true) :
    s.attempt parcel set a = ((s.note (.sent parcel set true)).letGo parcel.key).note
      (.acked parcel.key parcel.pending.records) := by
  obtain ⟨sent, applied, result⟩ := a
  cases h
  have htook : sent = true ∧ applied = true := by
    cases sent <;> cases applied <;> simp [Answer.sound, Except.isOk, Except.toBool] at hsound ⊢
  obtain ⟨rfl, rfl⟩ := htook
  rfl

theorem Underway.attempts (h : Underway fallen (parcel :: aloft) s)
    (hrecords : parcel.pending.records ≠ []) {answers : List (Answer Int64)}
    (herrors : ∀ a ∈ answers, ∃ e, a.result = .error e) :
    Underway fallen (parcel :: aloft) (answers.foldl (fun w a => w.attempt parcel set a) s) := by
  induction answers generalizing s with
  | nil => exact h
  | cons a answers ih =>
      refine ih ?_ fun other hmem => herrors other (List.mem_cons_of_mem _ hmem)
      obtain ⟨e, he⟩ := herrors a List.mem_cons_self
      show Underway fallen (parcel :: aloft) (s.attempt parcel set a)
      rw [attempt_failed he]
      split
      · exact h.sent hrecords
      · exact h

/-- A batch in flight that failed. -/
theorem Underway.fail (h : Underway fallen (parcel :: aloft) s) :
    Underway (fallen ++ [parcel]) aloft s := by
  have hlists : (fallen ++ [parcel]) ++ aloft = fallen ++ parcel :: aloft := by
    rw [List.append_assoc, List.singleton_append]
  refine ⟨h.identified, h.follows, h.acked, ?_, fun other hmem => ?_, fun other hmem => ?_, ?_⟩
  · rw [hlists]
    exact h.counted
  · obtain hmem | hmem := List.mem_append.mp hmem
    · exact h.failed other hmem
    · cases List.mem_singleton.mp hmem
      obtain ⟨stamp, hready⟩ := h.flying parcel List.mem_cons_self
      exact ⟨stamp, hready.stamped, hready.numbered⟩
  · exact h.flying other (List.mem_cons_of_mem _ hmem)
  · rw [hlists]
    exact h.nodup

variable {codecs : Codecs} {config : ProducerConfig} {flight : Flight}

theorem records_of_recordSet {nowMs : Int64}
    (h : recordSet codecs config parcel nowMs = .ok set) : parcel.pending.records ≠ [] := by
  intro hnil
  unfold recordSet encodeBatch at h
  rw [hnil, if_pos rfl] at h
  cases h

/-- One delivery: it is acknowledged where it comes to an offset, and has failed elsewhere. -/
theorem Underway.lands (h : Underway fallen (parcel :: aloft) s)
    {outcome : Except ClientError Int64}
    (hlanding : landing codecs config parcel flight = some outcome) :
    Underway (fallen ++ if outcome.isOk then [] else [parcel]) aloft
      ((s.fly codecs config parcel flight).note (.delivered parcel.key outcome)) := by
  have hquiet : Quiet (.delivered parcel.key outcome) := ⟨nofun, nofun⟩
  suffices hflown : Underway (fallen ++ if outcome.isOk then [] else [parcel]) aloft
      (s.fly codecs config parcel flight) from
    hflown.quiet (fun _ => rfl) rfl (.noted hquiet)
  unfold landing at hlanding
  unfold fly
  cases hset : recordSet codecs config parcel flight.nowMs with
  | error e =>
      rw [hset] at hlanding
      obtain ⟨_, heq⟩ := Option.ite_none_right_eq_some.mp hlanding
      cases heq
      exact h.fail
  | ok set =>
      rw [hset] at hlanding
      have hrecords := records_of_recordSet hset
      dsimp only
      obtain ⟨hnone, e, rfl⟩ | ⟨front, a, hanswers, hresult, hsound, herrors⟩ :=
        answers_of_verdict hlanding
      · rw [hnone]
        exact h.fail
      rw [hanswers, List.foldl_append]
      have hfailing : Underway fallen (parcel :: aloft)
          (front.foldl (fun w a => w.attempt parcel set a) s) := h.attempts hrecords herrors
      cases outcome with
      | ok baseOffset =>
          rw [List.foldl_cons, List.foldl_nil, attempt_answered hresult hsound]
          exact (List.append_nil fallen).symm ▸ hfailing.acknowledged hrecords
      | error e =>
          show Underway (fallen ++ [parcel]) aloft _
          rw [List.foldl_cons, List.foldl_nil, attempt_failed hresult]
          cases a.sent with
          | true => exact (hfailing.sent hrecords).fail
          | false => exact hfailing.fail

def failedOf (results : List (Parcel × Except ClientError Int64)) : List Parcel :=
  (results.filter fun result => !result.2.isOk).map (·.1)

theorem Underway.deliver {parcels : List Parcel} {flights : List Flight}
    {outcomes : List (Except ClientError Int64)} (h : Underway fallen parcels s)
    (hdeliver : s.deliver codecs config parcels flights = some (outcomes, t)) :
    Underway (fallen ++ failedOf (parcels.zip outcomes)) [] t := by
  induction parcels generalizing s fallen flights outcomes with
  | nil =>
      obtain ⟨_, rfl, rfl⟩ := deliver_nil hdeliver
      exact (List.append_nil fallen).symm ▸ h
  | cons parcel parcels ih =>
      obtain ⟨flight, flights', outcome, outcomes', _, hlanding, hrest, rfl⟩ :=
        deliver_cons hdeliver
      have hnext := ih (h.lands hlanding) hrest
      rw [List.append_assoc] at hnext
      cases outcome with
      | ok baseOffset => exact hnext
      | error e => exact hnext

theorem counter_rewind (key : PartitionKey) (hstamp : parcel.stamp = some stamp) :
    counter (handedBack s parcel).producer key =
      if key = parcel.key then stamp.baseSequence else counter s.producer key := by
  show ((s.producer.rewind parcel.key parcel.stamp).sequences.lookup key).getD 0 = _
  rw [hstamp]
  show ((s.producer.sequences.insert parcel.key stamp.baseSequence).lookup key).getD 0 = _
  split
  next hkey => rw [hkey, AList.lookup_insert, Option.getD_some]
  next hkey => rw [AList.lookup_insert_ne hkey, counter]

/-- A failed batch is put back, and its counter with it. -/
theorem Underway.handBack (h : Underway (parcel :: fallen) [] s) :
    Underway fallen [] (handedBack s parcel) := by
  obtain ⟨stamp, hstamp, hbase⟩ := h.failed parcel List.mem_cons_self
  have hidentity : (handedBack s parcel).producer.identity = s.producer.identity := by
    show (s.producer.rewind parcel.key parcel.stamp).identity = _
    rw [hstamp]
    rfl
  refine ⟨?_, h.follows, h.acked, fun key hkey => ?_,
    fun other hmem => h.failed other (List.mem_cons_of_mem _ hmem), nofun,
    (List.nodup_cons.mp h.nodup).2⟩
  · rw [hidentity]
    exact h.identified
  · rw [counter_rewind key hstamp]
    split
    next heq =>
      subst heq
      exact hbase
    next hne => exact h.counted key (List.not_mem_cons_of_ne_of_not_mem hne hkey)

theorem Underway.settle {results : List (Parcel × Except ClientError Int64)}
    (h : Underway (failedOf results) [] s) : Underway [] [] (settled s results) := by
  induction results generalizing s with
  | nil => exact h
  | cons result results ih =>
      obtain ⟨parcel, outcome⟩ := result
      cases outcome with
      | ok baseOffset => exact ih h
      | error e => exact ih (Underway.handBack h)

end Invariant

section Stamping

variable {config : ProducerConfig} {okDrop : ProducerOp → ProducerChoice → ProducerWorld → Bool}
  {s t : ProducerWorld} {aloft : List Parcel} {key : PartitionKey} {pending : PendingBatch}

theorem advanced_toInt {base : Int32} {n : Nat} (hbase : 0 ≤ base.toInt)
    (h : base.toInt + n ≤ i32Max) : (base + saturatingI32 n).toInt = base.toInt + n := by
  have hmax : i32Max = 2147483647 := rfl
  rw [Int32.toInt_add, toInt_saturatingI32, Int.bmod_eq_of_le]
  · omega
  · omega
  · omega

theorem counter_reserved (identity : ProducerIdentity) (n : Nat) (key' : PartitionKey) :
    counter (reserved s identity key n).2.producer key' =
      if key' = key then counter s.producer key + saturatingI32 n else counter s.producer key' := by
  show ((s.producer.sequences.insert key _).lookup key').getD 0 = _
  split
  next hkey =>
    rw [hkey, AList.lookup_insert, Option.getD_some]
    rfl
  next hkey => rw [AList.lookup_insert_ne hkey, counter]

theorem Identifies.quiet {out : Option (Except ClientError ProducerIdentity)}
    (h : Identifies config okDrop s out t) :
    (s.producer.identity ≠ none → t.producer.identity = s.producer.identity) ∧
      t.producer.sequences = s.producer.sequences ∧ Tells Quiet s t := by
  refine ⟨(Advances.of_identifies h).identity, by cases h <;> rfl, h.buffers.2.mono ?_⟩
  rintro event ⟨answer, _, rfl⟩
  exact ⟨nofun, nofun⟩

theorem Identifies.has_identity {identity : ProducerIdentity}
    (h : Identifies config okDrop s (some (.ok identity)) t) :
    t.producer.identity = some identity := by
  cases h with
  | known _ hidentity => exact hidentity
  | issued => rfl

theorem Repeats.quiet {records : List Record} (h : Repeats s key records)
    (hsequences : t.producer.sequences = s.producer.sequences) (htells : Tells Quiet s t) :
    Repeats t key records := by
  have hsender : senderAt key t.log = senderAt key s.log := by
    rw [senderAt, htells.signals_eq, senderAt]
  refine ⟨?_, ?_⟩
  · rw [hsender]
    exact h.1
  · rw [counter, hsequences]
    exact h.2

/-- A stamp is taken from the counter, which is the number next in line. -/
theorem Underway.stamp (h : Underway [] aloft s) (hkey : key ∉ aloft.map (·.key))
    (hidempotent : config.idempotent = true) (hrepeats : Repeats s key pending.records)
    {stamp : Option BatchStamp}
    (hstamps : Stamps config always okDrop key pending.records.length s (some (.ok stamp)) t) :
    Underway [] (aloft ++ [⟨key, pending, stamp⟩]) t ∧
      ∀ key' records, key' ≠ key → Repeats s key' records → Repeats t key' records := by
  cases hstamps with
  | plain hplain => cases hplain.symm.trans hidempotent
  | stamped identity u _ _ hidentifies _ =>
      obtain ⟨hidentity, hsequences, htells⟩ := hidentifies.quiet
      have hu := h.quiet hidentity hsequences htells
      obtain ⟨howed, hfits⟩ := hrepeats.quiet hsequences htells
      have hbase := hu.counted key hkey
      have hnonneg : 0 ≤ (counter u.producer key).toInt :=
        Int.le_trans (hu.follows key).placed.nonneg (Int.le_of_eq hbase)
      have hcounter (key' : PartitionKey) :
          counter (reserved u identity key pending.records.length).2.producer key' =
            if key' = key then counter u.producer key + saturatingI32 pending.records.length
            else counter u.producer key' := counter_reserved identity pending.records.length key'
      refine ⟨⟨hu.identified, hu.follows, hu.acked, fun key' hkey' => ?_, nofun,
        fun other hmem => ?_, ?_⟩, fun key' records hne hrepeats' => ?_⟩
      · have hother : key' ∉ aloft.map (·.key) ∧ key' ≠ key := by
          simpa only [List.nil_append, List.map_append, List.map_cons, List.map_nil,
            List.mem_append, List.mem_singleton, not_or] using hkey'
        rw [hcounter, if_neg hother.2]
        exact hu.counted key' hother.1
      · obtain hmem | hmem := List.mem_append.mp hmem
        · have hne : other.key ≠ key := fun heq => hkey (heq ▸ List.mem_map_of_mem hmem)
          obtain ⟨stamp', hready⟩ := hu.flying other hmem
          refine ⟨stamp', hready.stamped, hready.identity, hready.numbered, hready.repeats, ?_⟩
          rw [hcounter, if_neg hne]
          exact hready.counted
        · cases List.mem_singleton.mp hmem
          refine ⟨_, rfl, hidentifies.has_identity, hbase, howed, ?_⟩
          rw [hcounter, if_pos rfl]
          exact advanced_toInt hnonneg hfits
      · rw [List.nil_append, List.map_append, List.map_singleton]
        refine List.nodup_append.mpr ⟨hu.nodup, List.nodup_singleton _, fun k hk k' hk' => ?_⟩
        rintro rfl
        have heq : k = key := List.mem_singleton.mp hk'
        exact hkey (heq ▸ hk)
      · obtain ⟨howed', hfits'⟩ := hrepeats'.quiet hsequences htells
        refine ⟨howed', ?_⟩
        rw [hcounter, if_neg hne]
        exact hfits'

/-- A stamp that cannot be taken leaves the counters. -/
theorem Underway.unstamped (h : Underway [] aloft s) {e : ClientError} {n : Nat}
    (hstamps : Stamps config always okDrop key n s (some (.error e)) t) :
    Underway [] aloft t := by
  cases hstamps with
  | refused => exact h
  | unidentified _ _ _ _ hidentifies =>
      obtain ⟨hidentity, hsequences, htells⟩ := hidentifies.quiet
      exact h.quiet hidentity hsequences htells

/-- The stamps of a flush put its batches in flight. -/
theorem Underway.stampAll {batches : List (PartitionKey × PendingBatch)} {stamped : List Parcel}
    (h : Underway [] aloft s) (hidempotent : config.idempotent = true)
    (hkeys : (aloft.map (·.key) ++ batches.map (·.1)).Nodup)
    (hrepeats : ∀ batch ∈ batches, Repeats s batch.1 batch.2.records)
    (hstamps : StampsAll config always okDrop batches aloft s (some (.ok stamped)) t) :
    Underway [] stamped t := by
  generalize hout : (some (.ok stamped) : Option (Except ClientError (List Parcel))) = out
    at hstamps
  induction hstamps with
  | nil =>
      cases hout
      exact h
  | cons key pending stamp hstamp _ ih =>
      obtain ⟨hbefore, hafter, hapart⟩ := List.nodup_append.mp hkeys
      have hkey := fun hmem => hapart key hmem key List.mem_cons_self rfl
      obtain ⟨hnext, hothers⟩ := h.stamp hkey hidempotent (hrepeats _ List.mem_cons_self) hstamp
      refine ih hnext ?_ (fun batch hmem => ?_) hout
      · rw [List.map_append, List.append_assoc]
        exact hkeys
      · have hne : batch.1 ≠ key := by
          intro heq
          have hfree := (List.nodup_cons.mp hafter).1
          rw [← heq] at hfree
          exact hfree (List.mem_map.mpr ⟨batch, hmem, rfl⟩)
        exact hothers _ _ hne (hrepeats batch (List.mem_cons_of_mem _ hmem))
  | failed => cases hout
  | dropped => cases hout

end Stamping

section Methods

variable {codecs : Codecs} {config : ProducerConfig} {s t u : ProducerWorld} {key : PartitionKey}
  {keys : List PartitionKey} {records : List Record}

theorem Claims.quiet {out : Option (Except ClientError Unit)}
    (h : Claims config always always keys s out t) :
    (s.producer.identity ≠ none → t.producer.identity = s.producer.identity) ∧
      t.producer.sequences = s.producer.sequences ∧ Tells Quiet s t := by
  refine ⟨(Advances.of_claims h).identity, ?_, h.buffers.2.mono ?_⟩
  · cases h with
    | answered _ _ answer => cases answer <;> rfl
    | _ => rfl
  · rintro event ⟨answer, _, rfl⟩
    exact ⟨nofun, nofun⟩

theorem Underway.claims {out : Option (Except ClientError Unit)} (h : Underway [] [] s)
    (hclaims : Claims config always always keys s out t) : Underway [] [] t :=
  h.quiet hclaims.quiet.1 hclaims.quiet.2.1 hclaims.quiet.2.2

/-- Buffers and the state of the transaction are none of a sender's business. -/
theorem Underway.alike (h : Underway [] [] s)
    (hidentity : t.producer.identity = s.producer.identity)
    (hsequences : t.producer.sequences = s.producer.sequences) (hlog : t.log = s.log) :
    Underway [] [] t :=
  h.quiet (fun _ => hidentity) hsequences (.of_eq hlog)

theorem Claims.producible (h : Claims config always always keys s (some (.ok ())) t) :
    requireProducible s.producer.txnState = .ok () := by
  cases h with
  | unneeded hstate => obtain hstate | ⟨hstate, _⟩ := hstate <;> rw [hstate] <;> rfl
  | answered _ _ _ hopened => rw [hopened]; rfl

theorem Underway.produces {r : Except ClientError Int64} (h : Underway [] [] s)
    (hidempotent : config.idempotent = true)
    (hrepeats : requireProducible s.producer.txnState = .ok () → Repeats s key records)
    (hproduces : Produces codecs config always always key records s (some r) t) :
    Underway [] [] t := by
  have hstamped {u v : ProducerWorld} {stamp : Option BatchStamp}
      (hclaims : Claims config always always [key] s (some (.ok ())) u)
      (hstamps : Stamps config always always key records.length u (some (.ok stamp)) v) :
      Underway [] [⟨key, ⟨records, 0⟩, stamp⟩] v := by
    have hrepeats' : Repeats u key (⟨records, 0⟩ : PendingBatch).records :=
      (hrepeats hclaims.producible).quiet hclaims.quiet.2.1 hclaims.quiet.2.2
    exact ((h.claims hclaims).stamp nofun hidempotent hrepeats' hstamps).1
  cases hproduces with
  | unclaimed _ _ hclaims => exact h.claims hclaims
  | unstamped _ u _ hclaims hstamps => exact (h.claims hclaims).unstamped hstamps
  | delivered stamp baseOffset u v _ hclaims hstamps hdelivers =>
      cases hdelivers with
      | landed flight outcome _ hlanding => exact (hstamped hclaims hstamps).lands hlanding
  | failed stamp e u v w hclaims hstamps hdelivers =>
      cases hdelivers with
      | landed flight outcome _ hlanding =>
          have hfailed := (hstamped hclaims hstamps).lands hlanding
          exact (Underway.handBack hfailed).alike rfl rfl rfl

theorem Underway.flushesPartition {r : Except ClientError Delivery} (h : Underway [] [] s)
    (hidempotent : config.idempotent = true)
    (hrepeats : requireProducible s.producer.txnState = .ok () →
      Repeats s key (s.producer.slot key).records)
    (hflushes : FlushesPartition codecs config always always key s (some r) t) :
    Underway [] [] t := by
  have hremoved : Underway [] [] (s.remove key).2 := h.alike rfl rfl rfl
  have hstamped {u v : ProducerWorld} {stamp : Option BatchStamp}
      (hclaims : Claims config always always [key] (s.remove key).2 (some (.ok ())) u)
      (hstamps : Stamps config always always key (s.producer.slot key).records.length u
        (some (.ok stamp)) v) : Underway [] [⟨key, s.producer.slot key, stamp⟩] v := by
    have hrepeats' : Repeats (s.remove key).2 key (s.producer.slot key).records :=
      (hrepeats hclaims.producible).quiet rfl .refl
    exact ((hremoved.claims hclaims).stamp nofun hidempotent
      (hrepeats'.quiet hclaims.quiet.2.1 hclaims.quiet.2.2) hstamps).1
  cases hflushes with
  | unclaimed _ u hclaims => exact (hremoved.claims hclaims).alike rfl rfl rfl
  | unstamped _ u v hclaims hstamps =>
      exact ((hremoved.claims hclaims).unstamped hstamps).alike rfl rfl rfl
  | delivered stamp baseOffset u v _ hclaims hstamps hdelivers =>
      cases hdelivers with
      | landed flight outcome _ hlanding => exact (hstamped hclaims hstamps).lands hlanding
  | failed stamp e u v w hclaims hstamps hdelivers =>
      cases hdelivers with
      | landed flight outcome _ hlanding =>
          have hfailed := (hstamped hclaims hstamps).lands hlanding
          exact (Underway.handBack hfailed).alike rfl rfl rfl

theorem Underway.restoredAll {batches : List (PartitionKey × PendingBatch)}
    (h : Underway [] [] s) : Underway [] [] (restoredAll s batches) := by
  induction batches generalizing s with
  | nil => exact h
  | cons batch batches ih => exact ih (s := s.restore batch.1 batch.2) (h.alike rfl rfl rfl)

/-- After a flush nothing is in flight. -/
theorem Underway.flushes {r : Except ClientError (List Delivery)} (h : Underway [] [] s)
    (hidempotent : config.idempotent = true)
    (hrepeats : requireProducible s.producer.txnState = .ok () →
      ∀ key ∈ s.producer.pending.keys, Repeats s key (s.producer.slot key).records)
    (hflushes : Flushes codecs config always always s (some r) t) : Underway [] [] t := by
  have htells (keys : List PartitionKey) : Tells Quiet s (s.drain keys).2 :=
    .noted ⟨nofun, nofun⟩
  have hdrained (keys : List PartitionKey) : Underway [] [] (s.drain keys).2 :=
    h.quiet (fun _ => rfl) rfl (htells keys)
  have hstamped {keys : List PartitionKey} {stamped : List Parcel} {u v : ProducerWorld}
      (hperm : keys.Perm s.producer.pending.keys)
      (hclaims : Claims config always always keys (s.drain keys).2 (some (.ok ())) u)
      (hstamps : StampsAll config always always (s.drain keys).1 [] u (some (.ok stamped)) v) :
      Underway [] stamped v := by
    refine ((hdrained keys).claims hclaims).stampAll hidempotent ?_ (fun batch hmem => ?_) hstamps
    · have hkeys : (s.drain keys).1.map (·.1) = keys := by
        simp only [ProducerWorld.drain, List.map_map, Function.comp_def, List.map_id']
      rw [hkeys]
      exact nodup_of_perm hperm
    · obtain ⟨key, hkey, rfl⟩ := List.mem_map.mp hmem
      have hrepeats' : Repeats (s.drain keys).2 key (s.producer.slot key).records :=
        (hrepeats hclaims.producible key (hperm.mem_iff.mp hkey)).quiet rfl (htells keys)
      exact hrepeats'.quiet hclaims.quiet.2.1 hclaims.quiet.2.2
  cases hflushes with
  | empty _ => exact hdrained []
  | unclaimed keys _ u _ _ hclaims => exact ((hdrained keys).claims hclaims).restoredAll
  | unstamped keys _ u _ _ _ hclaims hstamps =>
      obtain ⟨key, pending, rest, v, _, hstamp, rfl⟩ := first_of_stampsAll hstamps
      exact (((hdrained keys).claims hclaims).unstamped hstamp).alike rfl rfl rfl
  | delivered keys stamped flights outcomes _ u v w hperm _ hclaims hstamps _ hdeliver _ =>
      exact ((hstamped hperm hclaims hstamps).deliver hdeliver).settle
  | failed keys stamped flights outcomes worst u v w hperm _ hclaims hstamps _ hdeliver _ =>
      have hsettled := ((hstamped hperm hclaims hstamps).deliver hdeliver).settle
      exact hsettled.alike rfl rfl rfl

theorem Underway.enqueues {record : Record} {r : Except ClientError (Option Delivery)}
    (h : Underway [] [] s) (hidempotent : config.idempotent = true)
    (hrepeats : requireProducible s.producer.txnState = .ok () →
      Fills config s.producer key record →
      Repeats s key ((s.producer.push key record).slot key).records)
    (henqueue : (ProducerUnder codecs config always always).Ends
      (Producer.enqueue config key record).run s (some r) t) : Underway [] [] t := by
  have hpushed : Underway [] [] (pushed s key record) := h.alike rfl rfl rfl
  have haccepted {w : ProducerWorld} (hw : Underway [] [] w) :
      Underway [] [] (w.note (.accepted key record)) :=
    hw.quiet (fun _ => rfl) rfl (.noted ⟨nofun, nofun⟩)
  obtain ⟨henqueues, hfills | rfl⟩ := ends_enqueueFull henqueue
  · have hrepeats' (hproducible : requireProducible s.producer.txnState = .ok ()) :
        Repeats (pushed s key record) key ((pushed s key record).producer.slot key).records :=
      (hrepeats hproducible hfills).quiet rfl .refl
    cases henqueues with
    | buffered => exact haccepted hpushed
    | flushed _ u hflush => exact haccepted (hpushed.flushesPartition hidempotent hrepeats' hflush)
    | failed _ _ hflush => exact hpushed.flushesPartition hidempotent hrepeats' hflush
  · exact haccepted hpushed

end Methods

end Odradek.Client
