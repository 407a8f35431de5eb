import Odradek.Client.ProducerMethods

/-!
What an enqueue, a produce and a flush can come to, case by case: how far it got,
and the world that leaves.
-/

namespace Odradek.Client

open Library Library.Service Odradek.Protocol ProducerWorld Producer

variable {codecs : Codecs} {config : ProducerConfig}
  {okExec okDrop : ProducerOp → ProducerChoice → ProducerWorld → Bool}
  {s t u v : ProducerWorld} {key : PartitionKey} {pending : PendingBatch} {parcel : Parcel}
  {parcels : List Parcel} {flights : List Flight}

section Deliveries

/-- A verdict is what the last of the attempts came to, after failures. -/
theorem answers_of_verdict {α : Type} {answers : List (Answer α)} {outcome : Except ClientError α}
    (h : verdict config answers = some outcome) :
    (answers = [] ∧ ∃ e, outcome = .error e) ∨ ∃ front a, answers = front ++ [a] ∧
      a.result = outcome ∧ a.sound = true ∧ ∀ b ∈ front, ∃ e, b.result = .error e := by
  obtain ⟨hsound, hloop⟩ := Option.ite_none_right_eq_some.mp h
  obtain ⟨hnone, rfl⟩ | ⟨results, hresults, herrors⟩ := retryLoop_cases hloop
  · exact .inl ⟨List.map_eq_nil_iff.mp hnone, _, rfl⟩
  · obtain ⟨front, last, rfl, rfl, hlast⟩ := List.map_eq_append_iff.mp hresults
    obtain ⟨a, rfl, hresult⟩ := List.map_eq_singleton_iff.mp hlast
    refine .inr ⟨front, a, rfl, hresult, ?_, fun b hmem => herrors _ (List.mem_map_of_mem hmem)⟩
    exact List.all_eq_true.mp hsound a (List.mem_append_right _ List.mem_cons_self)

/-- An attempt leaves the producer as it is. -/
theorem producer_attempt {set : Bytes} {a : Answer Int64} :
    (s.attempt parcel set a).producer = s.producer := by
  unfold attempt
  cases a.sent <;> cases a.result.isOk <;> rfl

theorem producer_fly {flight : Flight} :
    (s.fly codecs config parcel flight).producer = s.producer := by
  unfold fly
  split
  · rfl
  next set _ =>
    generalize flight.answers = answers
    induction answers generalizing s with
    | nil => rfl
    | cons a rest ih => exact ih.trans producer_attempt

theorem deliver_cons {outcomes : List (Except ClientError Int64)}
    (h : s.deliver codecs config (parcel :: parcels) flights = some (outcomes, t)) :
    ∃ flight flights' outcome outcomes', flights = flight :: flights' ∧
      landing codecs config parcel flight = some outcome ∧
      ((s.fly codecs config parcel flight).note (.delivered parcel.key outcome)).deliver codecs
        config parcels flights' = some (outcomes', t) ∧ outcomes = outcome :: outcomes' := by
  cases flights with
  | nil => cases h
  | cons flight flights' =>
      obtain ⟨outcome, hlanding, hrest⟩ := Option.bind_eq_some_iff.mp h
      obtain ⟨⟨outcomes', t'⟩, hdeliver, heq⟩ := Option.map_eq_some_iff.mp hrest
      cases heq
      exact ⟨flight, flights', outcome, outcomes', rfl, hlanding, hdeliver, rfl⟩

theorem deliver_nil {outcomes : List (Except ClientError Int64)}
    (h : s.deliver codecs config [] flights = some (outcomes, t)) :
    flights = [] ∧ outcomes = [] ∧ s = t := by
  cases flights with
  | nil =>
      cases h
      exact ⟨rfl, rfl, rfl⟩
  | cons _ _ => cases h

theorem scatter_cons (h : s.scatter codecs config (parcel :: parcels) flights = some t) :
    ∃ flight flights', flights = flight :: flights' ∧
      ((landing codecs config parcel flight).isSome || waiting config flight.answers) = true ∧
      (s.fly codecs config parcel flight).scatter codecs config parcels flights' = some t := by
  cases flights with
  | nil => cases h
  | cons flight flights' =>
      obtain ⟨hflight, hrest⟩ := Option.ite_none_right_eq_some.mp h
      exact ⟨flight, flights', rfl, hflight, hrest⟩

theorem scatter_nil (h : s.scatter codecs config [] flights = some t) : s = t := by
  cases flights with
  | nil =>
      cases h
      rfl
  | cons _ _ => cases h

variable (codecs config okExec okDrop) in
inductive Delivers (parcel : Parcel) (s : ProducerWorld) :
    Option (Except ClientError Int64) → ProducerWorld → Prop
  | landed (flight : Flight) (outcome : Except ClientError Int64) :
      okExec (.deliver [parcel]) (.flights [flight]) s = true →
      landing codecs config parcel flight = some outcome →
      Delivers parcel s (some outcome)
        ((s.fly codecs config parcel flight).note (.delivered parcel.key outcome))
  | dropped (flight : Flight) : okDrop (.deliver [parcel]) (.flights [flight]) s = true →
      ((landing codecs config parcel flight).isSome || waiting config flight.answers) = true →
      Delivers parcel s none (s.fly codecs config parcel flight).abandoned

/-- What the delivery of one parcel can come to. -/
theorem ends_deliverOne {out : Option (Except ClientError Int64)}
    (h : (ProducerUnder codecs config okExec okDrop).Ends (Producer.deliver parcel).run s out t) :
    Delivers codecs config okExec okDrop parcel s out t := by
  rcases ends_bind h with ⟨outcomes, u, hcall, hrest⟩ | ⟨hcall, rfl⟩
  · rcases ends_deliver hcall with ⟨flights, outcomes', hok, hdeliver, heq⟩ | ⟨hnone, _⟩
    case inr => cases hnone
    cases heq
    obtain ⟨flight, flights', outcome, rest, rfl, hlanding, hlast, rfl⟩ := deliver_cons hdeliver
    obtain ⟨rfl, rfl, rfl⟩ := deliver_nil hlast
    obtain ⟨rfl, rfl⟩ := ends_done hrest
    exact .landed flight outcome hok hlanding
  · rcases ends_deliver hcall with ⟨_, _, _, _, heq⟩ | ⟨_, flights, v, hok, hscatter, rfl⟩
    case inl => cases heq
    obtain ⟨flight, flights', rfl, hflight, hscatter⟩ := scatter_cons hscatter
    have hnil : flights' = [] := by
      cases flights' with
      | nil => rfl
      | cons _ _ => cases hscatter
    subst hnil
    obtain rfl := scatter_nil hscatter
    exact .dropped flight hok hflight

end Deliveries

section Loops

def restoredAll (w : ProducerWorld) (batches : List (PartitionKey × PendingBatch)) :
    ProducerWorld :=
  batches.foldl (fun w batch => w.restore batch.1 batch.2) w

theorem txnState_restoredAll {batches : List (PartitionKey × PendingBatch)} :
    (restoredAll s batches).producer.txnState = s.producer.txnState := by
  induction batches generalizing s with
  | nil => rfl
  | cons batch rest ih => exact ih (s := s.restore batch.1 batch.2)

theorem ends_restoreAll {batches : List (PartitionKey × PendingBatch)} {out : Option Unit}
    (h : (ProducerUnder codecs config okExec okDrop).Ends (restoreAll batches) s out t) :
    out = some () ∧ restoredAll s batches = t := by
  induction batches generalizing s with
  | nil => exact ends_done h
  | cons batch rest ih =>
      exact ih (ends_bindOf (p := perform (.restore batch.1 batch.2))
        (f := fun _ => restoreAll rest)
        ends_restore h)

variable (config okExec okDrop) in
inductive StampsAll : List (PartitionKey × PendingBatch) → List Parcel → ProducerWorld →
    Option (Except ClientError (List Parcel)) → ProducerWorld → Prop
  | nil (stamped : List Parcel) (s : ProducerWorld) :
      StampsAll [] stamped s (some (.ok stamped)) s
  | cons (key : PartitionKey) (pending : PendingBatch) (stamp : Option BatchStamp)
      {rest : List (PartitionKey × PendingBatch)} {stamped : List Parcel} {s u t : ProducerWorld}
      {out : Option (Except ClientError (List Parcel))} :
      Stamps config okExec okDrop key pending.records.length s (some (.ok stamp)) u →
      StampsAll rest (stamped ++ [(⟨key, pending, stamp⟩ : Parcel)]) u out t →
      StampsAll ((key, pending) :: rest) stamped s out t
  | failed (key : PartitionKey) (pending : PendingBatch) (e : ClientError)
      {rest : List (PartitionKey × PendingBatch)} {stamped : List Parcel} {s u : ProducerWorld} :
      Stamps config okExec okDrop key pending.records.length s (some (.error e)) u →
      StampsAll ((key, pending) :: rest) stamped s (some (.error e))
        (restoredAll (u.restore key pending)
          (stamped.map fun parcel => (parcel.key, parcel.pending)))
  | dropped (key : PartitionKey) (pending : PendingBatch)
      {rest : List (PartitionKey × PendingBatch)} {stamped : List Parcel} {s t : ProducerWorld} :
      Stamps config okExec okDrop key pending.records.length s none t →
      StampsAll ((key, pending) :: rest) stamped s none t

/-- What the stamps of a flush can come to. -/
theorem ends_stampAll {batches : List (PartitionKey × PendingBatch)} {stamped : List Parcel}
    {out : Option (Except ClientError (List Parcel))}
    (h : (ProducerUnder codecs config okExec okDrop).Ends (stampAll config batches stamped).run s
      out t) : StampsAll config okExec okDrop batches stamped s out t := by
  induction batches generalizing stamped s with
  | nil =>
      obtain ⟨rfl, rfl⟩ := ends_done h
      exact .nil stamped s
  | cons batch rest ih =>
      obtain ⟨key, pending⟩ := batch
      rcases ends_caughtBind h with ⟨r, u, hstamp, hrest⟩ | ⟨hstamp, rfl⟩
      · cases r with
        | ok stamp => exact .cons key pending stamp (ends_batchStamp hstamp) (ih hrest)
        | error e =>
            have hrest := ends_liftBindOf ends_restore hrest
            have hthrow := ends_liftBindOf ends_restoreAll hrest
            obtain ⟨rfl, rfl⟩ := ends_done hthrow
            exact .failed key pending e (ends_batchStamp hstamp)
      · exact .dropped key pending (ends_batchStamp hstamp)

/-- A batch that failed is put back, its sequence with it. -/
def handedBack (w : ProducerWorld) (parcel : Parcel) : ProducerWorld :=
  (w.setProducer (w.producer.rewind parcel.key parcel.stamp)).restore parcel.key parcel.pending

def poisoned (w : ProducerWorld) (e : ClientError) : ProducerWorld :=
  w.setProducer (w.producer.poison e)

/-- What the loop over the outcomes does to the producer. -/
def settled (w : ProducerWorld) : List (Parcel × Except ClientError Int64) → ProducerWorld
  | [] => w
  | (_, .ok _) :: rest => settled w rest
  | (parcel, .error _) :: rest => settled (handedBack w parcel) rest

def failureOf (failure : Option (PartitionKey × ClientError)) :
    List (Parcel × Except ClientError Int64) → Option (PartitionKey × ClientError)
  | [] => failure
  | (_, .ok _) :: rest => failureOf failure rest
  | (parcel, .error e) :: rest => failureOf (worst failure parcel.key e) rest

theorem ends_settle {results : List (Parcel × Except ClientError Int64)}
    {deliveries : List Delivery} {failure : Option (PartitionKey × ClientError)}
    {out : Option (List Delivery × Option (PartitionKey × ClientError))}
    (h : (ProducerUnder codecs config okExec okDrop).Ends (settle results deliveries failure) s
      out t) :
    ∃ deliveries', out = some (deliveries', failureOf failure results) ∧ settled s results = t := by
  induction results generalizing deliveries failure s with
  | nil =>
      obtain ⟨rfl, rfl⟩ := ends_done h
      exact ⟨deliveries, rfl, rfl⟩
  | cons result rest ih =>
      obtain ⟨parcel, outcome⟩ := result
      cases outcome with
      | ok baseOffset => exact ih h
      | error e =>
          have hrest := ends_bindOf (p := modify (·.rewind parcel.key parcel.stamp))
            (f := fun _ => (perform (.restore parcel.key parcel.pending)).bind fun _ =>
              settle rest deliveries (worst failure parcel.key e)) ends_modify h
          exact ih (ends_bindOf (p := perform (.restore parcel.key parcel.pending))
            (f := fun _ => settle rest deliveries (worst failure parcel.key e)) ends_restore hrest)

theorem failureOf_none {failure : Option (PartitionKey × ClientError)}
    {results : List (Parcel × Except ClientError Int64)} (h : failureOf failure results = none) :
    failure = none ∧ ∀ r ∈ results, ∃ offset, r.2 = .ok offset := by
  induction results generalizing failure with
  | nil => exact ⟨h, fun r hr => by cases hr⟩
  | cons result rest ih =>
      obtain ⟨parcel, outcome⟩ := result
      cases outcome with
      | ok baseOffset =>
          obtain ⟨hfailure, hrest⟩ := ih h
          refine ⟨hfailure, fun r hr => ?_⟩
          rcases List.mem_cons.mp hr with rfl | hr
          · exact ⟨baseOffset, rfl⟩
          · exact hrest r hr
      | error e =>
          obtain ⟨hworst, _⟩ := ih h
          exfalso
          cases failure with
          | none => cases hworst
          | some other =>
              simp only [worst] at hworst
              split at hworst <;> cases hworst

/-- Nothing is settled where nothing failed. -/
theorem settled_of_ok {results : List (Parcel × Except ClientError Int64)}
    (h : ∀ r ∈ results, ∃ offset, r.2 = .ok offset) : settled s results = s := by
  induction results with
  | nil => rfl
  | cons result rest ih =>
      obtain ⟨parcel, outcome⟩ := result
      obtain ⟨offset, rfl⟩ := h _ List.mem_cons_self
      exact ih fun r hr => h r (List.mem_cons_of_mem _ hr)

end Loops

section Flushes

variable (codecs config okExec okDrop) in
inductive FlushesPartition (key : PartitionKey) (s : ProducerWorld) :
    Option (Except ClientError Delivery) → ProducerWorld → Prop
  | unclaimed (e : ClientError) (u : ProducerWorld) :
      Claims config okExec okDrop [key] (s.remove key).2 (some (.error e)) u →
      FlushesPartition key s (some (.error e)) (u.restore key (s.producer.slot key))
  | claimDropped (t : ProducerWorld) :
      Claims config okExec okDrop [key] (s.remove key).2 none t → FlushesPartition key s none t
  | unstamped (e : ClientError) (u v : ProducerWorld) :
      Claims config okExec okDrop [key] (s.remove key).2 (some (.ok ())) u →
      Stamps config okExec okDrop key (s.producer.slot key).records.length u (some (.error e)) v →
      FlushesPartition key s (some (.error e)) (v.restore key (s.producer.slot key))
  | stampDropped (u t : ProducerWorld) :
      Claims config okExec okDrop [key] (s.remove key).2 (some (.ok ())) u →
      Stamps config okExec okDrop key (s.producer.slot key).records.length u none t →
      FlushesPartition key s none t
  | delivered (stamp : Option BatchStamp) (baseOffset : Int64) (u v t : ProducerWorld) :
      Claims config okExec okDrop [key] (s.remove key).2 (some (.ok ())) u →
      Stamps config okExec okDrop key (s.producer.slot key).records.length u (some (.ok stamp)) v →
      Delivers codecs config okExec okDrop ⟨key, s.producer.slot key, stamp⟩ v
        (some (.ok baseOffset)) t →
      FlushesPartition key s
        (some (.ok ⟨key.1, key.2, baseOffset, (s.producer.slot key).records.length⟩)) t
  | failed (stamp : Option BatchStamp) (e : ClientError) (u v w : ProducerWorld) :
      Claims config okExec okDrop [key] (s.remove key).2 (some (.ok ())) u →
      Stamps config okExec okDrop key (s.producer.slot key).records.length u (some (.ok stamp)) v →
      Delivers codecs config okExec okDrop ⟨key, s.producer.slot key, stamp⟩ v
        (some (.error e)) w →
      FlushesPartition key s (some (.error e))
        (poisoned (handedBack w ⟨key, s.producer.slot key, stamp⟩) e)
  | deliveryDropped (stamp : Option BatchStamp) (u v t : ProducerWorld) :
      Claims config okExec okDrop [key] (s.remove key).2 (some (.ok ())) u →
      Stamps config okExec okDrop key (s.producer.slot key).records.length u (some (.ok stamp)) v →
      Delivers codecs config okExec okDrop ⟨key, s.producer.slot key, stamp⟩ v none t →
      FlushesPartition key s none t

theorem ends_flushPartition {out : Option (Except ClientError Delivery)}
    (h : (ProducerUnder codecs config okExec okDrop).Ends (flushPartition config key).run s out t) :
    FlushesPartition codecs config okExec okDrop key s out t := by
  have hrest := ends_liftBindOf ends_remove h
  rcases ends_caughtBind hrest with ⟨claim, u, hclaim, hrest⟩ | ⟨hclaim, rfl⟩
  case inr => exact .claimDropped t (ends_claimPartitions hclaim)
  have hclaims := ends_claimPartitions hclaim
  cases claim with
  | error e =>
      have hthrow := ends_liftBindOf ends_restore hrest
      obtain ⟨rfl, rfl⟩ := ends_done hthrow
      exact .unclaimed e u hclaims
  | ok _ =>
      rcases ends_caughtBind hrest with ⟨stamp, v, hstamp, hrest⟩ | ⟨hstamp, rfl⟩
      case inr => exact .stampDropped u t hclaims (ends_batchStamp hstamp)
      have hstamps := ends_batchStamp hstamp
      cases stamp with
      | error e =>
          have hthrow := ends_liftBindOf ends_restore hrest
          obtain ⟨rfl, rfl⟩ := ends_done hthrow
          exact .unstamped e u v hclaims hstamps
      | ok stamp =>
          rcases ends_caughtBind hrest with ⟨outcome, w, hdeliver, hrest⟩ | ⟨hdeliver, rfl⟩
          case inr => exact .deliveryDropped stamp u v t hclaims hstamps (ends_deliverOne hdeliver)
          have hdelivers := ends_deliverOne hdeliver
          cases outcome with
          | ok baseOffset =>
              obtain ⟨rfl, rfl⟩ := ends_done hrest
              exact .delivered stamp baseOffset u v w hclaims hstamps hdelivers
          | error e =>
              have hrest := ends_liftBindOf ends_modify hrest
              have hrest := ends_liftBindOf ends_restore hrest
              have hthrow := ends_liftBindOf ends_modify hrest
              obtain ⟨rfl, rfl⟩ := ends_done hthrow
              exact .failed stamp e u v w hclaims hstamps hdelivers

variable (codecs config okExec okDrop) in
inductive Flushes (s : ProducerWorld) :
    Option (Except ClientError (List Delivery)) → ProducerWorld → Prop
  | empty : s.producer.pending.keys = [] → Flushes s (some (.ok [])) (s.drain []).2
  | unclaimed (keys : List PartitionKey) (e : ClientError) (u : ProducerWorld) :
      keys.Perm s.producer.pending.keys → keys ≠ [] →
      Claims config okExec okDrop keys (s.drain keys).2 (some (.error e)) u →
      Flushes s (some (.error e)) (restoredAll u (s.drain keys).1)
  | claimDropped (keys : List PartitionKey) (t : ProducerWorld) :
      keys.Perm s.producer.pending.keys → keys ≠ [] →
      Claims config okExec okDrop keys (s.drain keys).2 none t → Flushes s none t
  | unstamped (keys : List PartitionKey) (e : ClientError) (u t : ProducerWorld) :
      keys.Perm s.producer.pending.keys → keys ≠ [] →
      Claims config okExec okDrop keys (s.drain keys).2 (some (.ok ())) u →
      StampsAll config okExec okDrop (s.drain keys).1 [] u (some (.error e)) t →
      Flushes s (some (.error e)) t
  | stampDropped (keys : List PartitionKey) (u t : ProducerWorld) :
      keys.Perm s.producer.pending.keys → keys ≠ [] →
      Claims config okExec okDrop keys (s.drain keys).2 (some (.ok ())) u →
      StampsAll config okExec okDrop (s.drain keys).1 [] u none t → Flushes s none t
  | delivered (keys : List PartitionKey) (stamped : List Parcel) (flights : List Flight)
      (outcomes : List (Except ClientError Int64)) (deliveries : List Delivery)
      (u v w : ProducerWorld) :
      keys.Perm s.producer.pending.keys → keys ≠ [] →
      Claims config okExec okDrop keys (s.drain keys).2 (some (.ok ())) u →
      StampsAll config okExec okDrop (s.drain keys).1 [] u (some (.ok stamped)) v →
      okExec (.deliver stamped) (.flights flights) v = true →
      v.deliver codecs config stamped flights = some (outcomes, w) →
      failureOf none (stamped.zip outcomes) = none →
      Flushes s (some (.ok deliveries)) (settled w (stamped.zip outcomes))
  | failed (keys : List PartitionKey) (stamped : List Parcel) (flights : List Flight)
      (outcomes : List (Except ClientError Int64)) (worst : PartitionKey × ClientError)
      (u v w : ProducerWorld) :
      keys.Perm s.producer.pending.keys → keys ≠ [] →
      Claims config okExec okDrop keys (s.drain keys).2 (some (.ok ())) u →
      StampsAll config okExec okDrop (s.drain keys).1 [] u (some (.ok stamped)) v →
      okExec (.deliver stamped) (.flights flights) v = true →
      v.deliver codecs config stamped flights = some (outcomes, w) →
      failureOf none (stamped.zip outcomes) = some worst →
      Flushes s (some (.error worst.2)) (poisoned (settled w (stamped.zip outcomes)) worst.2)
  | deliveryDropped (keys : List PartitionKey) (stamped : List Parcel) (flights : List Flight)
      (u v w : ProducerWorld) :
      keys.Perm s.producer.pending.keys → keys ≠ [] →
      Claims config okExec okDrop keys (s.drain keys).2 (some (.ok ())) u →
      StampsAll config okExec okDrop (s.drain keys).1 [] u (some (.ok stamped)) v →
      okDrop (.deliver stamped) (.flights flights) v = true →
      v.scatter codecs config stamped flights = some w → Flushes s none w.abandoned

/-- What a flush can come to. -/
theorem ends_flush {out : Option (Except ClientError (List Delivery))}
    (h : (ProducerUnder codecs config okExec okDrop).Ends (flush config).run s out t) :
    Flushes codecs config okExec okDrop s out t := by
  rcases ends_liftBind h with ⟨batches, u, hdrain, hrest⟩ | ⟨hdrain, _⟩
  case inr => obtain ⟨_, _, hnone, _⟩ := ends_drain hdrain; cases hnone
  obtain ⟨keys, hperm, heq, rfl⟩ := ends_drain hdrain
  cases heq
  have hbatches : (s.drain keys).1.map (·.1) = keys := by
    simp only [ProducerWorld.drain, List.map_map, Function.comp_def, List.map_id']
  by_cases hkeys : keys = []
  · subst hkeys
    obtain ⟨rfl, rfl⟩ := ends_done hrest
    exact .empty hperm.symm.eq_nil
  have hsome : (s.drain keys).1.isEmpty = false := by
    cases keys with
    | nil => exact absurd rfl hkeys
    | cons _ _ => rfl
  simp only [hsome, Bool.false_eq_true, if_false, hbatches] at hrest
  rcases ends_caughtBind hrest with ⟨claim, u, hclaim, hrest⟩ | ⟨hclaim, rfl⟩
  case inr => exact .claimDropped keys t hperm hkeys (ends_claimPartitions hclaim)
  have hclaims := ends_claimPartitions hclaim
  cases claim with
  | error e =>
      have hthrow := ends_liftBindOf ends_restoreAll hrest
      obtain ⟨rfl, rfl⟩ := ends_done hthrow
      exact .unclaimed keys e u hperm hkeys hclaims
  | ok _ =>
      rcases ends_tryBind hrest with ⟨stamped, v, hstamp, hrest⟩ | ⟨e, hstamp, rfl⟩ | ⟨hstamp, rfl⟩
      case inr.inl => exact .unstamped keys e u t hperm hkeys hclaims (ends_stampAll hstamp)
      case inr.inr => exact .stampDropped keys u t hperm hkeys hclaims (ends_stampAll hstamp)
      have hstamps := ends_stampAll hstamp
      rcases ends_liftBind hrest with ⟨outcomes, w, hdeliver, hrest⟩ | ⟨hdeliver, rfl⟩
      case inr =>
        rcases ends_deliver hdeliver with ⟨_, _, _, _, heq⟩ | ⟨_, flights, w, hok, hscatter, rfl⟩
        · cases heq
        · exact .deliveryDropped keys stamped flights u v w hperm hkeys hclaims hstamps hok hscatter
      rcases ends_deliver hdeliver with ⟨flights, outcomes', hok, hdeliver, heq⟩ | ⟨hnone, _⟩
      case inr => cases hnone
      cases heq
      rcases ends_liftBind hrest with ⟨⟨deliveries, failure⟩, x, hsettle, hrest⟩ | ⟨hsettle, _⟩
      case inr => obtain ⟨_, hnone, _⟩ := ends_settle hsettle; cases hnone
      obtain ⟨deliveries', heq, rfl⟩ := ends_settle hsettle
      cases heq
      cases hfailure : failureOf none (stamped.zip outcomes) with
      | none =>
          simp only [hfailure] at hrest
          obtain ⟨rfl, rfl⟩ := ends_done hrest
          exact .delivered keys stamped flights outcomes _ u v w hperm hkeys hclaims hstamps hok
            hdeliver hfailure
      | some worst =>
          simp only [hfailure] at hrest
          have hthrow := ends_liftBindOf ends_modify hrest
          obtain ⟨rfl, rfl⟩ := ends_done hthrow
          exact .failed keys stamped flights outcomes worst u v w hperm hkeys hclaims hstamps hok
            hdeliver hfailure

end Flushes

end Odradek.Client
