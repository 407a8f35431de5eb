import Odradek.Client.ProducerTransactions

/-!
Invariants of the calls that only enqueue, produce and flush. What a single part of
such a call preserves, every call does; what is known of a stamp when it is taken
is known of the parcel it goes out with.
-/

namespace Odradek.Client

open Library Library.Service Odradek.Protocol ProducerWorld Producer

variable {codecs : Codecs} {config : ProducerConfig}
  {okExec okDrop : ProducerOp → ProducerChoice → ProducerWorld → Bool}
  {s t u v w : ProducerWorld} {key : PartitionKey} {keys : List PartitionKey} {record : Record}
  {records : List Record} {parcel : Parcel} {parcels : List Parcel} {pending : PendingBatch}

/-- The worlds differ in nothing but the buffers, and who holds what was in them. -/
structure Alike (s t : ProducerWorld) : Prop where
  identity : t.producer.identity = s.producer.identity
  sequences : t.producer.sequences = s.producer.sequences
  txnState : t.producer.txnState = s.producer.txnState
  txnPartitions : t.producer.txnPartitions = s.producer.txnPartitions
  announced : t.announced = s.announced
  log : t.log = s.log

variable (codecs config okExec okDrop) in
structure Frame (Inv : ProducerWorld → Prop) (Good : Option BatchStamp → Prop) : Prop where
  alike {s t : ProducerWorld} : Inv s → Alike s t → Inv t
  claims {keys : List PartitionKey} {s t : ProducerWorld} {out : Option (Except ClientError Unit)} :
    Inv s → Claims config okExec okDrop keys s out t → Inv t
  stamps {key : PartitionKey} {n : Nat} {s t : ProducerWorld}
    {out : Option (Except ClientError (Option BatchStamp))} :
    Inv s → Stamps config okExec okDrop key n s out t →
      Inv t ∧ ∀ stamp, out = some (.ok stamp) → Good stamp
  flies {parcel : Parcel} {flight : Flight} {s : ProducerWorld} :
    Inv s → Good parcel.stamp → Inv (s.fly codecs config parcel flight)
  delivered {key : PartitionKey} {outcome : Except ClientError Int64} {s : ProducerWorld} :
    Inv s → Inv (s.note (.delivered key outcome))
  drained {keys : List PartitionKey} {s : ProducerWorld} : Inv s → Inv (s.note (.drained keys))
  accepted {key : PartitionKey} {record : Record} {s : ProducerWorld} :
    Inv s → Inv (s.note (.accepted key record))
  rewound {key : PartitionKey} {stamp : Option BatchStamp} {s : ProducerWorld} :
    Inv s → Good stamp → Inv (s.setProducer (s.producer.rewind key stamp))
  poisoned {e : ClientError} {s : ProducerWorld} : Inv s → Inv (poisoned s e)

namespace Frame

variable {Inv : ProducerWorld → Prop} {Good : Option BatchStamp → Prop}

section Parts

theorem restored (F : Frame codecs config okExec okDrop Inv Good) (hs : Inv s) :
    Inv (s.restore key pending) :=
  F.alike hs ⟨rfl, rfl, rfl, rfl, rfl, rfl⟩

theorem restoredAll (F : Frame codecs config okExec okDrop Inv Good) (hs : Inv s)
    {batches : List (PartitionKey × PendingBatch)} : Inv (Client.restoredAll s batches) := by
  induction batches generalizing s with
  | nil => exact hs
  | cons batch rest ih => exact ih (F.restored hs)

theorem abandoned (F : Frame codecs config okExec okDrop Inv Good) (hs : Inv s) :
    Inv s.abandoned :=
  F.alike hs ⟨rfl, rfl, rfl, rfl, rfl, rfl⟩

theorem removed (F : Frame codecs config okExec okDrop Inv Good) (hs : Inv s) :
    Inv (s.remove key).2 :=
  F.alike hs ⟨rfl, rfl, rfl, rfl, rfl, rfl⟩

theorem drain (F : Frame codecs config okExec okDrop Inv Good) (hs : Inv s) :
    Inv (s.drain keys).2 :=
  F.drained (F.alike hs ⟨rfl, rfl, rfl, rfl, rfl, rfl⟩)

theorem handedBack (F : Frame codecs config okExec okDrop Inv Good) (hs : Inv s)
    (hgood : Good parcel.stamp) : Inv (Client.handedBack s parcel) :=
  F.restored (F.rewound hs hgood)

/-- Stamps are taken inside the frame, and are good. -/
theorem stampsAll (F : Frame codecs config okExec okDrop Inv Good)
    {batches : List (PartitionKey × PendingBatch)} {stamped : List Parcel}
    {out : Option (Except ClientError (List Parcel))} (hs : Inv s)
    (hstamped : ∀ parcel ∈ stamped, Good parcel.stamp)
    (h : StampsAll config okExec okDrop batches stamped s out t) :
    Inv t ∧ ∀ parcels, out = some (.ok parcels) → ∀ parcel ∈ parcels, Good parcel.stamp := by
  induction h with
  | nil stamped s =>
      refine ⟨hs, fun parcels heq => ?_⟩
      cases heq
      exact hstamped
  | cons key pending stamp hstamp _ ih =>
      obtain ⟨hu, hgood⟩ := F.stamps hs hstamp
      refine ih hu fun parcel hparcel => ?_
      rcases List.mem_append.mp hparcel with hmem | hmem
      · exact hstamped parcel hmem
      · cases List.mem_singleton.mp hmem
        exact hgood stamp rfl
  | failed key pending e hstamp =>
      exact ⟨F.restoredAll (F.restored (F.stamps hs hstamp).1), fun _ heq => by cases heq⟩
  | dropped key pending hstamp => exact ⟨(F.stamps hs hstamp).1, fun _ heq => by cases heq⟩

theorem delivers (F : Frame codecs config okExec okDrop Inv Good)
    {out : Option (Except ClientError Int64)} (hs : Inv s) (hgood : Good parcel.stamp)
    (h : Delivers codecs config okExec okDrop parcel s out t) : Inv t := by
  cases h with
  | landed _ _ _ _ => exact F.delivered (F.flies hs hgood)
  | dropped _ _ _ => exact F.abandoned (F.flies hs hgood)

theorem deliver (F : Frame codecs config okExec okDrop Inv Good) {flights : List Flight}
    {outcomes : List (Except ClientError Int64)} (hs : Inv s)
    (hgood : ∀ parcel ∈ parcels, Good parcel.stamp)
    (h : s.deliver codecs config parcels flights = some (outcomes, t)) : Inv t := by
  induction parcels generalizing s flights outcomes with
  | nil =>
      obtain ⟨_, _, rfl⟩ := deliver_nil h
      exact hs
  | cons parcel rest ih =>
      obtain ⟨flight, flights', outcome, outcomes', _, _, hrest, _⟩ := deliver_cons h
      have hnext : Inv ((s.fly codecs config parcel flight).note (.delivered parcel.key outcome)) :=
        F.delivered (F.flies hs (hgood parcel List.mem_cons_self))
      exact ih hnext (fun p hp => hgood p (List.mem_cons_of_mem _ hp)) hrest

theorem scatter (F : Frame codecs config okExec okDrop Inv Good) {flights : List Flight}
    (hs : Inv s) (hgood : ∀ parcel ∈ parcels, Good parcel.stamp)
    (h : s.scatter codecs config parcels flights = some t) : Inv t := by
  induction parcels generalizing s flights with
  | nil =>
      obtain rfl := scatter_nil h
      exact hs
  | cons parcel rest ih =>
      obtain ⟨flight, flights', _, _, hrest⟩ := scatter_cons h
      exact ih (F.flies hs (hgood parcel List.mem_cons_self))
        (fun p hp => hgood p (List.mem_cons_of_mem _ hp)) hrest

theorem settled (F : Frame codecs config okExec okDrop Inv Good)
    {results : List (Parcel × Except ClientError Int64)} (hs : Inv s)
    (hgood : ∀ result ∈ results, Good result.1.stamp) : Inv (Client.settled s results) := by
  induction results generalizing s with
  | nil => exact hs
  | cons result rest ih =>
      have hrest : ∀ r ∈ rest, Good r.1.stamp := fun r hr => hgood r (List.mem_cons_of_mem _ hr)
      obtain ⟨parcel, outcome⟩ := result
      cases outcome with
      | ok _ => exact ih hs hrest
      | error _ => exact ih (F.handedBack hs (hgood _ List.mem_cons_self)) hrest

end Parts

section Whole

theorem flushesPartition (F : Frame codecs config okExec okDrop Inv Good)
    {out : Option (Except ClientError Delivery)} (hs : Inv s)
    (h : FlushesPartition codecs config okExec okDrop key s out t) : Inv t := by
  have hremoved : Inv (s.remove key).2 := F.removed hs
  cases h with
  | unclaimed _ u hclaims => exact F.restored (F.claims hremoved hclaims)
  | claimDropped _ hclaims => exact F.claims hremoved hclaims
  | unstamped _ u v hclaims hstamps =>
      exact F.restored (F.stamps (F.claims hremoved hclaims) hstamps).1
  | stampDropped u _ hclaims hstamps => exact (F.stamps (F.claims hremoved hclaims) hstamps).1
  | delivered stamp _ u v _ hclaims hstamps hdelivers
  | deliveryDropped stamp u v _ hclaims hstamps hdelivers =>
      obtain ⟨hv, hgood⟩ := F.stamps (F.claims hremoved hclaims) hstamps
      exact F.delivers hv (hgood stamp rfl) hdelivers
  | failed stamp _ u v w hclaims hstamps hdelivers =>
      obtain ⟨hv, hgood⟩ := F.stamps (F.claims hremoved hclaims) hstamps
      exact F.poisoned (F.handedBack (F.delivers hv (hgood stamp rfl) hdelivers) (hgood stamp rfl))

/-- A flush stays inside the frame. -/
theorem flushes (F : Frame codecs config okExec okDrop Inv Good)
    {out : Option (Except ClientError (List Delivery))} (hs : Inv s)
    (h : Flushes codecs config okExec okDrop s out t) : Inv t := by
  cases h with
  | empty _ => exact F.drain hs
  | unclaimed _ _ u _ _ hclaims => exact F.restoredAll (F.claims (F.drain hs) hclaims)
  | claimDropped _ _ _ _ hclaims => exact F.claims (F.drain hs) hclaims
  | unstamped _ _ u _ _ _ hclaims hstamps | stampDropped _ u _ _ _ hclaims hstamps =>
      exact (F.stampsAll (F.claims (F.drain hs) hclaims) (fun _ hp => by cases hp) hstamps).1
  | delivered _ stamped _ outcomes _ u v w _ _ hclaims hstamps _ hdeliver _ =>
      obtain ⟨hv, hgood⟩ :=
        F.stampsAll (F.claims (F.drain hs) hclaims) (fun _ hp => by cases hp) hstamps
      exact F.settled (F.deliver hv (hgood stamped rfl) hdeliver)
        fun r hr => hgood stamped rfl r.1 (List.of_mem_zip hr).1
  | failed _ stamped _ outcomes _ u v w _ _ hclaims hstamps _ hdeliver _ =>
      obtain ⟨hv, hgood⟩ :=
        F.stampsAll (F.claims (F.drain hs) hclaims) (fun _ hp => by cases hp) hstamps
      exact F.poisoned (F.settled (F.deliver hv (hgood stamped rfl) hdeliver)
        fun r hr => hgood stamped rfl r.1 (List.of_mem_zip hr).1)
  | deliveryDropped _ stamped _ u v w _ _ hclaims hstamps _ hscatter =>
      obtain ⟨hv, hgood⟩ :=
        F.stampsAll (F.claims (F.drain hs) hclaims) (fun _ hp => by cases hp) hstamps
      exact F.abandoned (F.scatter hv (hgood stamped rfl) hscatter)

theorem enqueues (F : Frame codecs config okExec okDrop Inv Good)
    {out : Option (Except ClientError (Option Delivery))} (hs : Inv s)
    (h : Enqueues codecs config okExec okDrop key record s out t) : Inv t := by
  have hpushed : Inv (pushed s key record) := F.alike hs ⟨rfl, rfl, rfl, rfl, rfl, rfl⟩
  cases h with
  | buffered => exact F.accepted hpushed
  | flushed _ u hflush => exact F.accepted (F.flushesPartition hpushed hflush)
  | failed _ _ hflush | dropped _ hflush => exact F.flushesPartition hpushed hflush

theorem enqueuesKeyed (F : Frame codecs config okExec okDrop Inv Good) {topic : String}
    {out : Option (Except ClientError (Option Delivery))} (hs : Inv s)
    (h : EnqueuesKeyed codecs config okExec okDrop topic record s out t) : Inv t := by
  cases h with
  | unrouted _ => exact hs
  | dropped => exact F.abandoned hs
  | routed _ cursor _ _ henqueues =>
      have hrotated : Inv (rotated s cursor) := F.alike hs ⟨rfl, rfl, rfl, rfl, rfl, rfl⟩
      exact F.enqueues hrotated henqueues

theorem produces (F : Frame codecs config okExec okDrop Inv Good)
    {out : Option (Except ClientError Int64)} (hs : Inv s)
    (h : Produces codecs config okExec okDrop key records s out t) : Inv t := by
  cases h with
  | unclaimed _ _ hclaims | claimDropped _ hclaims => exact F.claims hs hclaims
  | unstamped _ u _ hclaims hstamps | stampDropped u _ hclaims hstamps =>
      exact (F.stamps (F.claims hs hclaims) hstamps).1
  | delivered stamp _ u v _ hclaims hstamps hdelivers
  | deliveryDropped stamp u v _ hclaims hstamps hdelivers =>
      obtain ⟨hv, hgood⟩ := F.stamps (F.claims hs hclaims) hstamps
      exact F.delivers hv (hgood stamp rfl) hdelivers
  | failed stamp _ u v w hclaims hstamps hdelivers =>
      obtain ⟨hv, hgood⟩ := F.stamps (F.claims hs hclaims) hstamps
      exact F.poisoned (F.rewound (F.delivers hv (hgood stamp rfl) hdelivers) (hgood stamp rfl))

end Whole

end Frame

section Plain

/-- What an enqueue, a produce or a flush may put on record. -/
def Plain : ProducerEvent → Prop
  | .began | .initialized _ | .offsets _ | .ended _ _ | .committed => False
  | _ => True

/-- A record that takes any such event stays as it should be. -/
theorem plain_frame {L : ProducerLog → Prop}
    (hL : ∀ log event p, L log → Plain event → L (log ++ [(event, p)])) :
    Frame codecs config okExec okDrop (fun w => L w.log) fun _ => True where
  alike h halike := by rw [halike.log]; exact h
  claims h hclaims := by
    cases hclaims with
    | unneeded _ | refused _ _ _ | dropped _ _ _ _ => exact h
    | answered _ _ _ _ _ _ _ _ => exact hL _ _ _ h trivial
  stamps h hstamps := by
    refine ⟨?_, fun _ _ => trivial⟩
    have hidentifies : ∀ {s t : ProducerWorld} {out : Option (Except ClientError ProducerIdentity)},
        L s.log → Identifies config okDrop s out t → L t.log := by
      intro s t out h hidentifies
      cases hidentifies with
      | known _ _ | refused _ _ _ | dropped _ _ _ _ => exact h
      | issued _ _ _ _ _ | unissued _ _ _ _ _ => exact hL _ _ _ h trivial
    cases hstamps with
    | plain _ | refused _ _ _ => exact h
    | unidentified _ _ _ _ hidentifies' | dropped _ _ _ hidentifies' =>
        exact hidentifies h hidentifies'
    | stamped _ u _ _ hidentifies' _ => exact hidentifies (t := u) h hidentifies'
  flies {parcel flight s} h _ := by
    unfold fly
    split
    · exact h
    next set _ =>
      generalize flight.answers = answers
      induction answers generalizing s with
      | nil => exact h
      | cons a rest ih =>
          refine ih ?_
          have hsent : L (if a.sent then s.note (.sent parcel set a.applied) else s).log := by
            split
            · exact hL _ _ _ h trivial
            · exact h
          unfold attempt
          dsimp only
          split
          · exact hL _ _ _ hsent trivial
          · exact hsent
  delivered h := hL _ _ _ h trivial
  drained h := hL _ _ _ h trivial
  accepted h := hL _ _ _ h trivial
  rewound h _ := h
  poisoned h := h

end Plain

section Advances

/-- An identity once it is there stays, and a failure is all that changes the state. -/
structure Advances (s t : ProducerWorld) : Prop where
  identity : s.producer.identity ≠ none → t.producer.identity = s.producer.identity
  state : t.producer.txnState = s.producer.txnState ∨
    (s.producer.txnState = .opened ∧ t.producer.txnState = .abortable) ∨
    (s.producer.txnState ≠ .disabled ∧ t.producer.txnState = .fenced)

namespace Advances

theorem of_eq (hidentity : t.producer.identity = s.producer.identity)
    (hstate : t.producer.txnState = s.producer.txnState) : Advances s t :=
  ⟨fun _ => hidentity, .inl hstate⟩

theorem trans (h : Advances s t) (h' : Advances t u) : Advances s u := by
  refine ⟨fun hsome => ?_, ?_⟩
  · have ht := h.identity hsome
    rw [h'.identity (ht ▸ hsome), ht]
  · rcases h.state with hst | ⟨hs, ht⟩ | ⟨hs, ht⟩ <;>
      rcases h'.state with htu | ⟨ht', hu⟩ | ⟨ht', hu⟩
    · exact .inl (htu.trans hst)
    · exact .inr (.inl ⟨hst ▸ ht', hu⟩)
    · exact .inr (.inr ⟨hst ▸ ht', hu⟩)
    · exact .inr (.inl ⟨hs, htu.trans ht⟩)
    · rw [ht] at ht'; cases ht'
    · exact .inr (.inr ⟨(by rw [hs]; exact fun h => (by cases h)), hu⟩)
    · exact .inr (.inr ⟨hs, htu.trans ht⟩)
    · rw [ht] at ht'; cases ht'
    · exact .inr (.inr ⟨hs, hu⟩)

theorem poisoned (e : ClientError) : Advances s (poisoned s e) := by
  refine ⟨fun _ => rfl, ?_⟩
  change afterFailure s.producer.txnState e = _ ∨ _ ∧ afterFailure s.producer.txnState e = _ ∨
    _ ∧ afterFailure s.producer.txnState e = _
  cases hstate : s.producer.txnState with
  | disabled => exact .inl rfl
  | opened =>
      by_cases hfencing : isFencing e
      · exact .inr (.inr ⟨(fun h => by cases h), if_pos hfencing⟩)
      · exact .inr (.inl ⟨rfl, if_neg hfencing⟩)
  | uninitialized | ready | abortable | fenced =>
      by_cases hfencing : isFencing e
      · exact .inr (.inr ⟨(fun h => by cases h), if_pos hfencing⟩)
      · exact .inl (if_neg hfencing)

theorem of_claims {out : Option (Except ClientError Unit)}
    (h : Claims config okExec okDrop keys s out t) : Advances s t := by
  cases h with
  | unneeded _ | refused _ _ _ | dropped _ _ _ _ => exact .of_eq rfl rfl
  | answered txn answers answer _ _ _ _ _ =>
      cases answer with
      | ok _ => exact .of_eq rfl rfl
      | error e =>
          have htold : Advances s (told s (.claimed (s.producer.unclaimed keys) (.error e))
              (s.announced || applied answers)) := .of_eq rfl rfl
          exact htold.trans (.poisoned e)

theorem of_identifies {out : Option (Except ClientError ProducerIdentity)}
    (h : Identifies config okDrop s out t) : Advances s t := by
  cases h with
  | issued answers identity hnone _ _ => exact ⟨fun hsome => absurd hnone hsome, .inl rfl⟩
  | known _ _ | refused _ _ _ | unissued _ _ _ _ _ | dropped _ _ _ _ => exact .of_eq rfl rfl

theorem of_stamps {n : Nat} {out : Option (Except ClientError (Option BatchStamp))}
    (h : Stamps config okExec okDrop key n s out t) : Advances s t := by
  cases h with
  | plain _ | refused _ _ _ => exact .of_eq rfl rfl
  | unidentified _ _ _ _ hidentifies | dropped _ _ _ hidentifies => exact of_identifies hidentifies
  | stamped identity u _ _ hidentifies _ =>
      exact (of_identifies hidentifies).trans (.of_eq rfl rfl)

theorem frame (s : ProducerWorld) :
    Frame codecs config okExec okDrop (Advances s) fun _ => True where
  alike h halike := h.trans (.of_eq halike.identity halike.txnState)
  claims h hclaims := h.trans (of_claims hclaims)
  stamps h hstamps := ⟨h.trans (of_stamps hstamps), fun _ _ => trivial⟩
  flies h _ := h.trans (.of_eq (congrArg Producer.identity producer_fly)
    (congrArg Producer.txnState producer_fly))
  delivered h := h.trans (.of_eq rfl rfl)
  drained h := h.trans (.of_eq rfl rfl)
  accepted h := h.trans (.of_eq rfl rfl)
  rewound {_ stamp _} h _ := h.trans (by cases stamp <;> exact .of_eq rfl rfl)
  poisoned h := h.trans (.poisoned _)

theorem refl : Advances s s := .of_eq rfl rfl

end Advances

end Advances

end Odradek.Client
