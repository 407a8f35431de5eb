import Odradek.Client.Agreement
import Odradek.Client.AbortWayOut
import Odradek.Library.Journal

/-!
The batches of a transaction. An idempotent producer with a transactional id puts
the identity of its last `init_transactions` on every batch it sends while a
transaction is open, with the transactional bit and a sequence that is not negative,
as long as no counter wraps.
-/

namespace Odradek.Client

open Library Library.Service Odradek.Protocol ProducerWorld Producer

section Carries

/-- The bytes are those of a batch of the transaction of `identity`. -/
def Carries (set : Bytes) (identity : ProducerIdentity) : Prop :=
  ∃ batch : RecordBatch, batch.encode = .ok set ∧ batch.isTransactional = true ∧
    batch.producerId = identity.id ∧ batch.producerEpoch = identity.epoch ∧
    0 ≤ batch.baseSequence

def BatchStamp.Of (stamp : BatchStamp) (identity : ProducerIdentity) : Prop :=
  stamp.transactional = true ∧ stamp.producerId = identity.id ∧
    stamp.producerEpoch = identity.epoch ∧ 0 ≤ stamp.baseSequence

theorem or_and_self (a b : Int16) : (a ||| b) &&& b = b := by
  apply Int16.toBitVec_inj.mp
  ext i hi
  simp only [Int16.toBitVec_and, Int16.toBitVec_or, BitVec.getElem_and, BitVec.getElem_or]
  cases a.toBitVec[i] <;> cases b.toBitVec[i] <;> rfl

theorem carries_of_encodeBatch {codecs : Codecs} {nowMs : Int64} {records : List Record}
    {codec : Compression} {stamp : BatchStamp} {set : Bytes} {identity : ProducerIdentity}
    (h : encodeBatch codecs nowMs records codec (some stamp) = .ok set)
    (hstamp : stamp.Of identity) : Carries set identity := by
  obtain ⟨htransactional, hid, hepoch, hsequence⟩ := hstamp
  obtain ⟨_, packed, _, rfl, hfits⟩ := encodeBatch_eq_ok h
  refine ⟨_, RecordBatch.encode_of_fits hfits, ?_, hid, hepoch, hsequence⟩
  have hattributes : (assembled nowMs (numbered records) codec (some stamp) packed).attributes =
      codec.attributeBits ||| (1 : Int16) <<< 4 := by
    change codec.attributeBits ||| (if stamp.transactional then (1 : Int16) <<< 4 else 0) = _
    rw [if_pos htransactional]
  unfold RecordBatch.isTransactional
  rw [hattributes, or_and_self]
  decide

theorem attributes_of_bytes (batch : RecordBatch) :
    (batch.bytes.drop 21).take 2 = putI16 batch.attributes := by
  have hhead : batch.bytes = (putI64 batch.baseOffset ++
      (putI32 (Int32.ofNat (4 + 1 + 4 + batch.body.length)) ++ (putI32 batch.partitionLeaderEpoch ++
        (putI8 magic ++ putU32 (crc32c batch.body))))) ++ batch.body := by
    simp only [RecordBatch.bytes, List.append_assoc]
  rw [hhead, List.drop_left' (by simp only [List.length_append, putI64, putI32, putI8, putU32,
    length_toBigEndian]), RecordBatch.body, RecordBatch.fixedFields, List.append_assoc,
    List.take_left' (by rw [putI16, length_toBigEndian])]

end Carries

section Log

def lastInitialized (log : ProducerLog) : Option ProducerIdentity :=
  log.foldl (fun last entry =>
    match entry.1 with
    | .initialized identity => some identity
    | _ => last) none

/-- Every batch sent while a transaction is open belongs to it. -/
def TransactionalLog (log : ProducerLog) : Prop :=
  ∀ before after parcel set applied p,
    log = before ++ (ProducerEvent.sent parcel set applied, p) :: after → p.txnState = .opened →
      ∃ identity, lastInitialized before = some identity ∧ Carries set identity

variable {log : ProducerLog} {event : ProducerEvent} {p : Producer}

theorem lastInitialized_append (h : ∀ identity, event ≠ .initialized identity) :
    lastInitialized (log ++ [(event, p)]) = lastInitialized log := by
  rw [lastInitialized, List.foldl_append]
  cases event with
  | initialized identity => exact absurd rfl (h identity)
  | _ => rfl

theorem lastInitialized_initialized {identity : ProducerIdentity} :
    lastInitialized (log ++ [(.initialized identity, p)]) = some identity := by
  rw [lastInitialized, List.foldl_append]
  rfl

/-- A list with one more element, split at any of its elements. -/
theorem TransactionalLog.append (h : TransactionalLog log)
    (hnew : ∀ parcel set applied, event = .sent parcel set applied → p.txnState = .opened →
      ∃ identity, lastInitialized log = some identity ∧ Carries set identity) :
    TransactionalLog (log ++ [(event, p)]) := by
  intro before after parcel set applied q heq hopened
  rcases append_singleton_eq_append_cons heq with ⟨after', hlog⟩ | ⟨rfl, hentry, _⟩
  · exact h before after' parcel set applied q hlog hopened
  · cases hentry
    exact hnew parcel set applied rfl hopened

end Log

section Certified

variable {codecs : Codecs} {config : ProducerConfig}
  {okExec okDrop : ProducerOp → ProducerChoice → ProducerWorld → Bool} {s t u : ProducerWorld}
  {initialized : Option ProducerIdentity}

def counter (p : Producer) (key : PartitionKey) : Int32 := (p.sequences.lookup key).getD 0

def unwrapped : ProducerOp → ProducerChoice → ProducerWorld → Bool
  | .nextStamp _ key records, _, w =>
    (counter w.producer key).toInt + (saturatingI32 records).toInt ≤ i32Max
  | _, _, _ => true

/-- A transactional producer whose identity is the one it was initialized with. -/
structure Certified (initialized : Option ProducerIdentity) (s : ProducerWorld) : Prop where
  enabled : s.producer.txnState ≠ .disabled
  identified : s.producer.txnState = .ready ∨ s.producer.txnState = .opened ∨
    s.producer.txnState = .abortable → s.producer.identity ≠ none
  identity : s.producer.identity = initialized
  last : lastInitialized s.log = initialized
  counters : ∀ key, 0 ≤ counter s.producer key
  log : TransactionalLog s.log

/-- What is known of a stamp: it is there, and of the transaction. -/
def StampOf (initialized : Option ProducerIdentity) (stamp : Option BatchStamp) : Prop :=
  ∃ st identity, stamp = some st ∧ initialized = some identity ∧ st.Of identity

theorem Certified.noted {event : ProducerEvent} (h : Certified initialized s)
    (hinit : ∀ identity, event ≠ .initialized identity)
    (hsent : ∀ parcel set applied, event = .sent parcel set applied →
      s.producer.txnState = .opened →
        ∃ identity, lastInitialized s.log = some identity ∧ Carries set identity) :
    Certified initialized (s.note event) :=
  ⟨h.enabled, h.identified, h.identity, (lastInitialized_append hinit).trans h.last, h.counters,
    h.log.append hsent⟩

/-- The counters and the record as they are, and a state that a failure may have changed. -/
theorem Certified.moved (h : Certified initialized s) (hadvances : Advances s t)
    (hidentity : t.producer.identity = s.producer.identity)
    (hsequences : t.producer.sequences = s.producer.sequences) (hlog : t.log = s.log) :
    Certified initialized t := by
  refine ⟨?_, fun hstate => ?_, hidentity.trans h.identity, ?_, fun key => ?_, ?_⟩
  · rcases hadvances.state with heq | ⟨_, ht⟩ | ⟨_, ht⟩
    · rw [heq]; exact h.enabled
    · rw [ht]; exact fun hnone => (by cases hnone)
    · rw [ht]; exact fun hnone => (by cases hnone)
  · rw [hidentity]
    rcases hadvances.state with heq | ⟨hs, _⟩ | ⟨_, ht⟩
    · exact h.identified (heq ▸ hstate)
    · exact h.identified (.inr (.inl hs))
    · rw [ht] at hstate
      rcases hstate with hstate | hstate | hstate <;> cases hstate
  · rw [hlog]; exact h.last
  · rw [counter, hsequences]; exact h.counters key
  · rw [hlog]; exact h.log

theorem Certified.poisoned (h : Certified initialized s) (e : ClientError) :
    Certified initialized (poisoned s e) :=
  h.moved (.poisoned e) rfl rfl rfl

theorem Certified.claims {keys : List PartitionKey} {out : Option (Except ClientError Unit)}
    (h : Certified initialized s) (hclaims : Claims config okExec okDrop keys s out t) :
    Certified initialized t := by
  cases hclaims with
  | unneeded _ | refused _ _ _ => exact h
  | dropped _ _ _ _ => exact h.moved (.of_eq rfl rfl) rfl rfl rfl
  | answered txn answers answer _ _ _ _ _ =>
      have htold : Certified initialized (told s (.claimed (s.producer.unclaimed keys) answer)
          (s.announced || applied answers)) :=
        (h.noted (fun _ heq => by cases heq) (fun _ _ _ heq => by cases heq)).moved
          (.of_eq rfl rfl) rfl rfl rfl
      cases answer with
      | ok _ => exact htold.moved (.of_eq rfl rfl) rfl rfl rfl
      | error e => exact htold.poisoned e

/-- A transactional producer has its identity before it takes a stamp. -/
theorem Certified.identifies {out : Option (Except ClientError ProducerIdentity)}
    (h : Certified initialized s) (hidentifies : Identifies config okDrop s out t) :
    s = t ∧ ∀ identity, out = some (.ok identity) → initialized = some identity := by
  have hknown : requireProducible s.producer.txnState = .ok () → s.producer.identity ≠ none :=
    fun hok => h.identified (.inr (.inl (opened_of_producible h.enabled hok)))
  cases hidentifies with
  | known identity hsome =>
      refine ⟨rfl, fun i heq => ?_⟩
      cases heq
      exact h.identity.symm.trans hsome
  | refused _ _ _ => exact ⟨rfl, fun _ heq => by cases heq⟩
  | issued _ _ hnone hok _ | unissued _ _ hnone hok _ | dropped _ hnone hok _ =>
      exact absurd hnone (hknown hok)

theorem counter_insert {p : Producer} {sequences : AList fun _ : PartitionKey => Int32}
    {key : PartitionKey} {base : Int32} (h : ∀ key, 0 ≤ counter p key) (hbase : 0 ≤ base)
    (hsequences : sequences = p.sequences.insert key base) (key' : PartitionKey) :
    0 ≤ (sequences.lookup key').getD 0 := by
  rw [hsequences]
  by_cases hkey : key' = key
  · rw [hkey, AList.lookup_insert]
    exact hbase
  · rw [AList.lookup_insert_ne hkey]
    exact h key'

/-- A counter that does not wrap stays where it may be. -/
theorem add_nonneg_of_unwrapped {base count : Int32} (hbase : 0 ≤ base) (hcount : 0 ≤ count)
    (h : base.toInt + count.toInt ≤ i32Max) : 0 ≤ base + count := by
  rw [Int32.le_iff_toInt_le] at *
  have hsum := Int32.toInt_add base count
  have hbase' : (0 : Int32).toInt = 0 := rfl
  have hmax : i32Max = 2147483647 := rfl
  rw [hsum, Int.bmod_def]
  omega

/-- A stamp is of the identity the producer was initialized with. -/
theorem Certified.stamps {key : PartitionKey} {n : Nat}
    {out : Option (Except ClientError (Option BatchStamp))} (hidempotent : config.idempotent = true)
    (h : Certified initialized s) (hstamps : Stamps config unwrapped okDrop key n s out t) :
    Certified initialized t ∧ ∀ stamp, out = some (.ok stamp) → StampOf initialized stamp := by
  cases hstamps with
  | plain hplain => rw [hidempotent] at hplain; cases hplain
  | refused _ _ _ => exact ⟨h, fun _ heq => by cases heq⟩
  | unidentified _ _ _ _ hidentifies | dropped _ _ _ hidentifies =>
      obtain ⟨rfl, _⟩ := h.identifies hidentifies
      exact ⟨h, fun _ heq => by cases heq⟩
  | stamped identity u _ _ hidentifies hok =>
      obtain ⟨rfl, hinitialized⟩ := h.identifies hidentifies
      have hbase : 0 ≤ counter s.producer key := h.counters key
      refine ⟨⟨h.enabled, h.identified, h.identity, h.last, ?_, h.log⟩, fun stamp heq => ?_⟩
      · refine counter_insert h.counters (add_nonneg_of_unwrapped hbase ?_ ?_) rfl
        · rw [Int32.le_iff_toInt_le, toInt_saturatingI32]
          exact Int.natCast_nonneg _
        · exact of_decide_eq_true hok
      · cases heq
        refine ⟨_, identity, rfl, hinitialized identity rfl, ?_, rfl, rfl, hbase⟩
        exact decide_eq_true h.enabled

theorem Certified.attempts {parcel : Parcel} {nowMs : Int64} {set : Bytes}
    (hset : recordSet codecs config parcel nowMs = .ok set)
    (hstamp : StampOf initialized parcel.stamp) (answers : List (Answer Int64))
    (h : Certified initialized s) :
    Certified initialized (answers.foldl (fun w a => w.attempt parcel set a) s) := by
  obtain ⟨st, identity, hst, rfl, hof⟩ := hstamp
  unfold recordSet at hset
  rw [hst] at hset
  have hcarries := carries_of_encodeBatch hset hof
  induction answers generalizing s with
  | nil => exact h
  | cons a rest ih =>
      refine ih ?_
      have hsent : Certified (some identity)
          (if a.sent then s.note (.sent parcel set a.applied) else s) := by
        split
        · refine h.noted (fun _ heq => by cases heq) fun _ _ _ heq _ => ?_
          cases heq
          exact ⟨identity, h.last, hcarries⟩
        · exact h
      unfold attempt
      dsimp only
      split
      · exact Certified.noted (hsent.moved (.of_eq rfl rfl) rfl rfl rfl)
          (fun _ heq => by cases heq) (fun _ _ _ heq => by cases heq)
      · exact hsent

theorem certified_frame (hidempotent : config.idempotent = true) :
    Frame codecs config unwrapped okDrop (Certified initialized) (StampOf initialized) where
  alike h halike := h.moved (.of_eq halike.identity halike.txnState) halike.identity
    halike.sequences halike.log
  claims h hclaims := h.claims hclaims
  stamps h hstamps := h.stamps hidempotent hstamps
  flies h hstamp := by
    unfold fly
    split
    · exact h
    next set hset => exact h.attempts hset hstamp _
  delivered h := h.noted (fun _ heq => by cases heq) (fun _ _ _ heq => by cases heq)
  drained h := h.noted (fun _ heq => by cases heq) (fun _ _ _ heq => by cases heq)
  accepted h := h.noted (fun _ heq => by cases heq) (fun _ _ _ heq => by cases heq)
  rewound h hstamp := by
    obtain ⟨st, identity, rfl, _, hof⟩ := hstamp
    exact ⟨h.enabled, h.identified, h.identity, h.last,
      counter_insert h.counters hof.2.2.2 rfl, h.log⟩
  poisoned h := h.poisoned _

end Certified

section Sessions

variable {codecs : Codecs} {config : ProducerConfig} {okDrop : ProducerOp → ProducerChoice →
  ProducerWorld → Bool} {s t : ProducerWorld} {initialized : Option ProducerIdentity}

theorem Certified.quiet {event : ProducerEvent} (h : Certified initialized s)
    (hinit : ∀ identity, event ≠ .initialized identity)
    (hsent : ∀ parcel set applied, event ≠ .sent parcel set applied) :
    Certified initialized (s.note event) :=
  h.noted hinit fun parcel set applied heq => absurd heq (hsent parcel set applied)

theorem Certified.told {event : ProducerEvent} {announced : Bool} (h : Certified initialized s)
    (hinit : ∀ identity, event ≠ .initialized identity)
    (hsent : ∀ parcel set applied, event ≠ .sent parcel set applied) :
    Certified initialized (told s event announced) :=
  (h.quiet hinit hsent).moved (.of_eq rfl rfl) rfl rfl rfl

theorem Certified.endsTransaction {committed : Bool} {r : Except ClientError Unit}
    (h : Certified initialized s) (hends : EndsTransaction config unwrapped committed s r t) :
    Certified initialized t := by
  cases hends with
  | refused _ _ => exact h
  | answered txn answers _ htxn _ _ =>
      have htold : Certified initialized
          (Client.told s (.ended committed r) (s.announced && !applied answers)) :=
        h.told (fun _ heq => by cases heq) (fun _ _ _ heq => by cases heq)
      cases r with
      | error e => exact htold.poisoned e
      | ok _ =>
          refine ⟨fun hnone => (by cases hnone), fun _ hnone => ?_, htold.identity, htold.last,
            htold.counters, htold.log⟩
          have hidentity : s.producer.identity = none := hnone
          unfold Producer.txn at htxn
          rw [hidentity] at htxn
          cases hname : config.transactionalId with
          | none => rw [hname] at htxn; cases htxn
          | some _ => rw [hname] at htxn; cases htxn

theorem Certified.initialize {r : Except ClientError Unit} (h : Certified initialized s)
    (hinit : Initializes config s r t) : ∃ initialized', Certified initialized' t := by
  cases hinit with
  | refused _ => exact ⟨_, h⟩
  | unissued _ _ _ _ =>
      exact ⟨_, h.told (fun _ heq => by cases heq) (fun _ _ _ heq => by cases heq)⟩
  | issued answers identity _ _ _ _ =>
      have htold : Certified initialized
          (Client.told s (.identified (.ok identity)) (s.announced && !applied answers)) :=
        h.told (fun _ heq => by cases heq) (fun _ _ _ heq => by cases heq)
      exact ⟨some identity, fun hnone => (by cases hnone), fun _ hnone => (by cases hnone), rfl,
        lastInitialized_initialized, fun _ => Int32.le_refl 0,
        htold.log.append fun _ _ _ heq => (by cases heq)⟩

/-- Every call leaves the producer certified. -/
theorem Certified.call {call : ProducerCall} {out : Option (Except ClientError Unit)}
    (hidempotent : config.idempotent = true) (h : Certified initialized s)
    (hcall : CallEnds codecs config unwrapped okDrop s call out t) :
    ∃ initialized', Certified initialized' t := by
  have hframe : Frame codecs config unwrapped okDrop (Certified initialized)
      (StampOf initialized) := certified_frame hidempotent
  cases hcall with
  | initTransactions _ _ hinit => exact h.initialize hinit
  | beginTransaction _ _ hbegin =>
      cases hbegin with
      | refused _ _ => exact ⟨_, h⟩
      | begun hready =>
          have hnoted : Certified initialized (s.note .began) :=
            h.quiet (fun _ heq => by cases heq) (fun _ _ _ heq => by cases heq)
          exact ⟨initialized, fun hnone => (by cases hnone), fun _ => h.identified (.inl hready),
            hnoted.identity, hnoted.last, hnoted.counters, hnoted.log⟩
  | enqueue _ _ _ _ henqueues => exact ⟨_, hframe.enqueues h henqueues⟩
  | enqueueKeyed _ _ _ _ henqueues => exact ⟨_, hframe.enqueuesKeyed h henqueues⟩
  | produce _ _ _ _ hproduces => exact ⟨_, hframe.produces h hproduces⟩
  | flush _ _ hflushes => exact ⟨_, hframe.flushes h hflushes⟩
  | sendOffsets _ _ r _ hsends =>
      cases hsends with
      | refused _ _ => exact ⟨_, h⟩
      | unannounced _ _ answers e _ _ _ _ =>
          exact ⟨_, (h.told (fun _ heq => by cases heq) (fun _ _ _ heq => by cases heq)).poisoned e⟩
      | nothing _ _ _ _ _ _ _ =>
          exact ⟨_, h.told (fun _ heq => by cases heq) (fun _ _ _ heq => by cases heq)⟩
      | answered _ _ _ answers answers' _ _ _ _ _ _ _ =>
          have htold : Certified initialized (offsetsTold s answers (.ok ())) :=
            h.told (fun _ heq => by cases heq) (fun _ _ _ heq => by cases heq)
          have hnoted : Certified initialized
              ((offsetsTold s answers (.ok ())).note (.offsets r)) :=
            htold.quiet (fun _ heq => by cases heq) (fun _ _ _ heq => by cases heq)
          cases r with
          | ok _ => exact ⟨_, hnoted⟩
          | error e => exact ⟨_, hnoted.poisoned e⟩
  | commitTransaction _ _ hcommits =>
      cases hcommits with
      | refused _ _ => exact ⟨_, h⟩
      | unflushed e u _ hflushes => exact ⟨_, (hframe.flushes h hflushes).poisoned e⟩
      | failed _ _ u _ _ hflushes hends =>
        exact ⟨_, (hframe.flushes h hflushes).endsTransaction hends⟩
      | committed _ u v _ hflushes hends =>
          exact ⟨_, ((hframe.flushes h hflushes).endsTransaction hends).quiet
            (fun _ heq => by cases heq) (fun _ _ _ heq => by cases heq)⟩
  | abortTransaction _ _ haborts =>
      cases haborts with
      | refused _ _ _ => exact ⟨_, h⟩
      | ended _ _ _ hends =>
          have hdiscarded : Certified initialized (discarded s) :=
            h.moved (.of_eq rfl rfl) rfl rfl rfl
          exact ⟨_, hdiscarded.endsTransaction hends⟩

def always : ProducerOp → ProducerChoice → ProducerWorld → Bool := fun _ _ _ => true

/-- Every run of an idempotent producer with a transactional id in which no counter wraps. -/
theorem batches_transactional (codecs : Codecs) (config : ProducerConfig) (s : ProducerWorld)
    (hname : config.transactionalId.isSome) (hidempotent : config.idempotent = true)
    (h : ProducerSessions (ProducerUnder codecs config unwrapped always) config
      ProducerCall.mayDrop s) :
    TransactionalLog s.log := by
  have hcertified : ∃ initialized, Certified initialized s := by
    refine sessions_induction (P := fun s => ∃ initialized, Certified initialized s)
      (fun _ hmay => hmay) ?_ (fun ⟨_, hs⟩ _ hcall => hs.call hidempotent hcall) h
    have hstate : (ProducerWorld.fresh config).producer.txnState = .uninitialized := if_pos hname
    refine ⟨none, fun hnone => ?_, fun hactive => ?_, rfl, rfl, fun _ => Int32.le_refl 0, ?_⟩
    · rw [hstate] at hnone
      cases hnone
    · rw [hstate] at hactive
      rcases hactive with hactive | hactive | hactive <;> cases hactive
    · intro before after _ _ _ _ heq
      cases before <;> cases heq
  exact hcertified.elim fun _ hs => hs.log

def produceRun (taken : List (Turn ProducerChoice)) :
    List (ProducerCall × List (Turn ProducerChoice)) :=
  beginRun ++ [(.produce ("t", 0) [Record.minimal],
    [.go .go, .go (.replies [.took ()]), .go .go, .go .go] ++ taken ++
      [.go (.flights [{ nowMs := 0, answers := [.took 0] }])])]

theorem batches_transactional_once :
    ∃ s : ProducerWorld, (∃ parcel set applied, ∃ p : Producer,
      (ProducerEvent.sent parcel set applied, p) ∈ s.log ∧ p.txnState = .opened) ∧
        TransactionalLog s.log := by
  have hrun : (((ProducerUnder Codecs.stored (.transactional "txn") unwrapped always).replayAll
      (ProducerCall.body (.transactional "txn")) ProducerCall.mayDrop
        (produceRun [.go .go, .go .go]) (.fresh (.transactional "txn"))).map
          fun s => s.log.any fun entry => match entry.1 with
            | .sent _ _ _ => entry.2.txnState = .opened
            | _ => false) = some true := by
    decide
  obtain ⟨s, hs, hsent⟩ := Option.map_eq_some_iff.mp hrun
  refine ⟨s, ?_, batches_transactional Codecs.stored (.transactional "txn") s rfl rfl
    (.of_replayAll (.start rfl) hs)⟩
  obtain ⟨⟨event, p⟩, hmem, hentry⟩ := List.any_eq_true.mp hsent
  cases event with
  | sent parcel set applied => exact ⟨parcel, set, applied, p, hmem, of_decide_eq_true hentry⟩
  | _ => cases hentry

def unnumbered : ProducerConfig := { ProducerConfig.transactional "txn" with idempotent := false }

/-- With idempotence off the batch of a transaction is a plain one. -/
theorem not_batches_transactional : ¬ ∀ (codecs : Codecs) (config : ProducerConfig)
    (s : ProducerWorld), config.transactionalId.isSome →
      ProducerSessions (producerService codecs config) config ProducerCall.mayDrop s →
        TransactionalLog s.log := by
  intro h
  have hrun : (((producerService Codecs.stored unnumbered).replayAll
      (ProducerCall.body unnumbered) ProducerCall.mayDrop (produceRun []) (.fresh unnumbered)).map
          fun s => s.log.any fun entry => match entry.1 with
            | .sent _ set _ => entry.2.txnState = .opened && (set.drop 21).take 2 = [0, 0]
            | _ => false) = some true := by
    decide
  obtain ⟨s, hs, hsent⟩ := Option.map_eq_some_iff.mp hrun
  have hlog := h Codecs.stored unnumbered s rfl (.of_replayAll (.start rfl) hs)
  obtain ⟨⟨event, p⟩, hmem, hentry⟩ := List.any_eq_true.mp hsent
  cases event with
  | sent parcel set applied =>
      obtain ⟨hopened, hzero⟩ := Bool.and_eq_true_iff.mp hentry
      obtain ⟨before, after, heq⟩ := List.append_of_mem hmem
      obtain ⟨_, _, batch, hencode, htransactional, _⟩ :=
        hlog before after parcel set applied p heq (of_decide_eq_true hopened)
      obtain ⟨rfl, _⟩ := RecordBatch.encode_eq_ok hencode
      have hattributes := of_decide_eq_true hzero
      rw [attributes_of_bytes] at hattributes
      have hread := congrArg ofBigEndian hattributes
      have hlt : batch.attributes.toBitVec.toNat < 256 ^ 2 := batch.attributes.toBitVec.isLt
      rw [putI16, ofBigEndian_toBigEndian, Nat.mod_eq_of_lt hlt] at hread
      have hnone : batch.attributes = 0 := by
        apply Int16.toBitVec_inj.mp
        exact BitVec.eq_of_toNat_eq hread
      unfold RecordBatch.isTransactional at htransactional
      rw [hnone] at htransactional
      cases htransactional
  | _ => cases hentry

end Sessions

end Odradek.Client
