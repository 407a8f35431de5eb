import Odradek.Client.ProducerFlushes

/-!
What each call of a producer can come to. The calls that only ever run to their
end have no case of being dropped.
-/

namespace Odradek.Client

open Library Library.Service Odradek.Protocol ProducerWorld Producer

variable {codecs : Codecs} {config : ProducerConfig}
  {okExec okDrop : ProducerOp → ProducerChoice → ProducerWorld → Bool}
  {s t u v : ProducerWorld} {key : PartitionKey} {record : Record} {records : List Record}

section Enqueues

def pushed (w : ProducerWorld) (key : PartitionKey) (record : Record) : ProducerWorld :=
  w.setProducer (w.producer.push key record)

variable (codecs config okExec okDrop) in
inductive Enqueues (key : PartitionKey) (record : Record) (s : ProducerWorld) :
    Option (Except ClientError (Option Delivery)) → ProducerWorld → Prop
  | buffered :
      Enqueues key record s (some (.ok none)) ((pushed s key record).note (.accepted key record))
  | flushed (delivery : Delivery) (u : ProducerWorld) :
      FlushesPartition codecs config okExec okDrop key (pushed s key record)
        (some (.ok delivery)) u →
      Enqueues key record s (some (.ok (some delivery))) (u.note (.accepted key record))
  | failed (e : ClientError) (t : ProducerWorld) :
      FlushesPartition codecs config okExec okDrop key (pushed s key record) (some (.error e)) t →
      Enqueues key record s (some (.error e)) t
  | dropped (t : ProducerWorld) :
      FlushesPartition codecs config okExec okDrop key (pushed s key record) none t →
      Enqueues key record s none t

/-- The record fills the buffer of its partition. -/
def Fills (config : ProducerConfig) (p : Producer) (key : PartitionKey) (record : Record) : Prop :=
  config.batchMaxBytes ≤ ((p.push key record).slot key).estimatedBytes

/-- A record is buffered where it does not fill its partition's buffer. -/
theorem ends_enqueueFull {out : Option (Except ClientError (Option Delivery))}
    (h : (ProducerUnder codecs config okExec okDrop).Ends (enqueue config key record).run s out t) :
    Enqueues codecs config okExec okDrop key record s out t ∧
      (Fills config s.producer key record ∨
        t = (pushed s key record).note (.accepted key record)) := by
  have hrest := ends_liftBindOf ends_modify h
  have hrest := ends_liftBindOf ends_self hrest
  split at hrest
  next hfills =>
    refine ⟨?_, .inl hfills⟩
    rcases ends_tryBind hrest with ⟨delivery, u, hflush, hrest⟩ | ⟨e, hflush, rfl⟩ | ⟨hflush, rfl⟩
    · have hdone := ends_liftBindOf ends_note hrest
      obtain ⟨rfl, rfl⟩ := ends_done hdone
      exact .flushed delivery u (ends_flushPartition hflush)
    · exact .failed e t (ends_flushPartition hflush)
    · exact .dropped t (ends_flushPartition hflush)
  next =>
    have hdone := ends_liftBindOf ends_note hrest
    obtain ⟨rfl, rfl⟩ := ends_done hdone
    exact ⟨.buffered, .inr rfl⟩

theorem ends_enqueue {out : Option (Except ClientError (Option Delivery))}
    (h : (ProducerUnder codecs config okExec okDrop).Ends (enqueue config key record).run s out t) :
    Enqueues codecs config okExec okDrop key record s out t :=
  (ends_enqueueFull h).1

end Enqueues

section Produces

variable (codecs config okExec okDrop) in
inductive Produces (key : PartitionKey) (records : List Record) (s : ProducerWorld) :
    Option (Except ClientError Int64) → ProducerWorld → Prop
  | unclaimed (e : ClientError) (t : ProducerWorld) :
      Claims config okExec okDrop [key] s (some (.error e)) t →
      Produces key records s (some (.error e)) t
  | claimDropped (t : ProducerWorld) : Claims config okExec okDrop [key] s none t →
      Produces key records s none t
  | unstamped (e : ClientError) (u t : ProducerWorld) :
      Claims config okExec okDrop [key] s (some (.ok ())) u →
      Stamps config okExec okDrop key records.length u (some (.error e)) t →
      Produces key records s (some (.error e)) t
  | stampDropped (u t : ProducerWorld) : Claims config okExec okDrop [key] s (some (.ok ())) u →
      Stamps config okExec okDrop key records.length u none t → Produces key records s none t
  | delivered (stamp : Option BatchStamp) (baseOffset : Int64) (u v t : ProducerWorld) :
      Claims config okExec okDrop [key] s (some (.ok ())) u →
      Stamps config okExec okDrop key records.length u (some (.ok stamp)) v →
      Delivers codecs config okExec okDrop ⟨key, ⟨records, 0⟩, stamp⟩ v (some (.ok baseOffset)) t →
      Produces key records s (some (.ok baseOffset)) t
  | failed (stamp : Option BatchStamp) (e : ClientError) (u v w : ProducerWorld) :
      Claims config okExec okDrop [key] s (some (.ok ())) u →
      Stamps config okExec okDrop key records.length u (some (.ok stamp)) v →
      Delivers codecs config okExec okDrop ⟨key, ⟨records, 0⟩, stamp⟩ v (some (.error e)) w →
      Produces key records s (some (.error e))
        (poisoned (w.setProducer (w.producer.rewind key stamp)) e)
  | deliveryDropped (stamp : Option BatchStamp) (u v t : ProducerWorld) :
      Claims config okExec okDrop [key] s (some (.ok ())) u →
      Stamps config okExec okDrop key records.length u (some (.ok stamp)) v →
      Delivers codecs config okExec okDrop ⟨key, ⟨records, 0⟩, stamp⟩ v none t →
      Produces key records s none t

/-- What a produce can come to. -/
theorem ends_produce {out : Option (Except ClientError Int64)}
    (h : (ProducerUnder codecs config okExec okDrop).Ends (produce config key records).run s
      out t) : Produces codecs config okExec okDrop key records s out t := by
  rcases ends_tryBind h with ⟨_, u, hclaim, hrest⟩ | ⟨e, hclaim, rfl⟩ | ⟨hclaim, rfl⟩
  case inr.inl => exact .unclaimed e t (ends_claimPartitions hclaim)
  case inr.inr => exact .claimDropped t (ends_claimPartitions hclaim)
  have hclaims := ends_claimPartitions hclaim
  rcases ends_tryBind hrest with ⟨stamp, v, hstamp, hrest⟩ | ⟨e, hstamp, rfl⟩ | ⟨hstamp, rfl⟩
  case inr.inl => exact .unstamped e u t hclaims (ends_batchStamp hstamp)
  case inr.inr => exact .stampDropped u t hclaims (ends_batchStamp hstamp)
  have hstamps := ends_batchStamp hstamp
  rcases ends_caughtBind hrest with ⟨outcome, w, hdeliver, hrest⟩ | ⟨hdeliver, rfl⟩
  case inr => exact .deliveryDropped stamp u v t hclaims hstamps (ends_deliverOne hdeliver)
  have hdelivers := ends_deliverOne hdeliver
  cases outcome with
  | ok baseOffset =>
      obtain ⟨rfl, rfl⟩ := ends_done hrest
      exact .delivered stamp baseOffset u v w hclaims hstamps hdelivers
  | error e =>
      have hrest := ends_liftBindOf ends_modify hrest
      have hthrow := ends_liftBindOf ends_modify hrest
      obtain ⟨rfl, rfl⟩ := ends_done hthrow
      exact .failed stamp e u v w hclaims hstamps hdelivers

end Produces

section Keyed

def rotated (w : ProducerWorld) (cursor : UInt64) : ProducerWorld :=
  w.setProducer { w.producer with nextRoundRobin := cursor }

theorem ends_askCount {topic : String} {out : Option (Option Nat)}
    (h : (ProducerUnder codecs config okExec okDrop).Ends (perform (.partitionCount topic)) s
      out t) : ∃ count, out = some count ∧ s = t := by
  rcases ends_perform h with ⟨c, r, hexec, rfl⟩ | ⟨c, hdrop, _⟩
  · have hact : act codecs config (.partitionCount topic) c s = some (r, t) := (under_exec hexec).2
    cases c with
    | count partitions => cases hact; exact ⟨_, rfl, rfl⟩
    | _ => cases hact
  · have hdrop' : drop codecs config (.partitionCount topic) c s = some t := (under_drop hdrop).2
    cases c <;> cases hdrop'

theorem ends_refreshMetadata {topic : String} {out : Option (Except ClientError Unit)}
    (h : (ProducerUnder codecs config okExec okDrop).Ends (perform (.refreshMetadata topic)) s
      out t) : (∃ r, out = some r ∧ s = t) ∨ (out = none ∧ t = s.abandoned) := by
  rcases ends_perform h with ⟨c, r, hexec, rfl⟩ | ⟨c, hdrop, rfl⟩
  · have hact : act codecs config (.refreshMetadata topic) c s = some (r, t) := (under_exec hexec).2
    cases c with
    | metadata result => cases hact; exact .inl ⟨_, rfl, rfl⟩
    | _ => cases hact
  · have hdrop' : drop codecs config (.refreshMetadata topic) c s = some t := (under_drop hdrop).2
    cases c with
    | go => cases hdrop'; exact .inr ⟨rfl, rfl⟩
    | _ => cases hdrop'

theorem ends_positiveCount {topic : String} (count : Option Nat)
    {out : Option (Except ClientError Nat)}
    (h : (ProducerUnder codecs config okExec okDrop).Ends
      (match count.filter (0 < ·) with
      | some count => (pure count : ProducerTry Nat)
      | none => throw (ClientError.unknownLeader topic (-1))).run s out t) :
    ∃ r, out = some r ∧ s = t := by
  split at h <;> obtain ⟨rfl, rfl⟩ := ends_done h <;> exact ⟨_, rfl, rfl⟩

theorem ends_partitionCount {topic : String} {out : Option (Except ClientError Nat)}
    (h : (ProducerUnder codecs config okExec okDrop).Ends (Producer.partitionCount topic).run s
      out t) : (∃ r, out = some r ∧ s = t) ∨ (out = none ∧ t = s.abandoned) := by
  rcases ends_liftBind h with ⟨known, u, hknown, hrest⟩ | ⟨hknown, _⟩
  case inr => obtain ⟨_, hnone, _⟩ := ends_askCount hknown; cases hnone
  obtain ⟨_, heq, rfl⟩ := ends_askCount hknown
  cases heq
  cases known with
  | some count =>
      exact .inl (ends_positiveCount (some count) hrest)
  | none =>
      rcases ends_tryBind hrest with ⟨_, v, hrefresh, hrest⟩ | ⟨e, hrefresh, rfl⟩ | ⟨hrefresh, rfl⟩
      · rcases ends_refreshMetadata hrefresh with ⟨_, _, rfl⟩ | ⟨hnone, _⟩
        case inr => cases hnone
        rcases ends_liftBind hrest with ⟨count, v, hask, hrest⟩ | ⟨hask, _⟩
        case inr => obtain ⟨_, hnone, _⟩ := ends_askCount hask; cases hnone
        obtain ⟨_, heq, rfl⟩ := ends_askCount hask
        cases heq
        exact .inl (ends_positiveCount _ hrest)
      · rcases ends_refreshMetadata hrefresh with ⟨_, _, rfl⟩ | ⟨hnone, _⟩
        · exact .inl ⟨_, rfl, rfl⟩
        · cases hnone
      · rcases ends_refreshMetadata hrefresh with ⟨_, heq, _⟩ | ⟨_, rfl⟩
        · cases heq
        · exact .inr ⟨rfl, rfl⟩

variable (codecs config okExec okDrop) in
inductive EnqueuesKeyed (topic : String) (record : Record) (s : ProducerWorld) :
    Option (Except ClientError (Option Delivery)) → ProducerWorld → Prop
  | unrouted (e : ClientError) : EnqueuesKeyed topic record s (some (.error e)) s
  | dropped : EnqueuesKeyed topic record s none s.abandoned
  | routed (partition : Int32) (cursor : UInt64)
      (out : Option (Except ClientError (Option Delivery))) (t : ProducerWorld) :
      Enqueues codecs config okExec okDrop (topic, partition) record (rotated s cursor) out t →
      EnqueuesKeyed topic record s out t

/-- A keyed enqueue is an enqueue, once its partition is known. -/
theorem ends_routed {topic : String} {out : Option (Except ClientError (Option Delivery))}
    (h : (ProducerUnder codecs config okExec okDrop).Ends (enqueueKeyed config topic record).run s
      out t) :
    (∃ e, out = some (.error e) ∧ s = t) ∨ (out = none ∧ t = s.abandoned) ∨
      ∃ partition cursor, (ProducerUnder codecs config okExec okDrop).Ends
        (enqueue config (topic, partition) record).run (rotated s cursor) out t := by
  rcases ends_tryBind h with ⟨count, u, hcount, hrest⟩ | ⟨e, hcount, rfl⟩ | ⟨hcount, rfl⟩
  · rcases ends_partitionCount hcount with ⟨_, _, rfl⟩ | ⟨hnone, _⟩
    case inr => cases hnone
    cases hkey : record.key with
    | some bytes =>
        simp only [hkey] at hrest
        exact .inr (.inr ⟨_, s.producer.nextRoundRobin, hrest⟩)
    | none =>
        simp only [hkey] at hrest
        rcases ends_liftBind hrest with ⟨partition, v, hrobin, hrest⟩ | ⟨hrobin, _⟩
        · have hwrite := ends_bindOf (p := self) ends_self hrobin
          have hdone := ends_bindOf (p := perform (.write _)) ends_write hwrite
          obtain ⟨_, rfl⟩ := ends_done hdone
          exact .inr (.inr ⟨partition, s.producer.nextRoundRobin + 1, hrest⟩)
        · have hwrite := ends_bindOf (p := self) ends_self hrobin
          have hdone := ends_bindOf (p := perform (.write _)) ends_write hwrite
          cases (ends_done hdone).1
  · rcases ends_partitionCount hcount with ⟨_, _, rfl⟩ | ⟨hnone, _⟩
    · exact .inl ⟨e, rfl, rfl⟩
    · cases hnone
  · rcases ends_partitionCount hcount with ⟨_, heq, _⟩ | ⟨_, rfl⟩
    · cases heq
    · exact .inr (.inl ⟨rfl, rfl⟩)

theorem ends_enqueueKeyed {topic : String} {out : Option (Except ClientError (Option Delivery))}
    (h : (ProducerUnder codecs config okExec okDrop).Ends (enqueueKeyed config topic record).run s
      out t) : EnqueuesKeyed codecs config okExec okDrop topic record s out t := by
  obtain ⟨e, rfl, rfl⟩ | ⟨rfl, rfl⟩ | ⟨partition, cursor, hrest⟩ := ends_routed h
  · exact .unrouted e
  · exact .dropped
  · exact .routed partition cursor out t (ends_enqueue hrest)

end Keyed

end Odradek.Client
