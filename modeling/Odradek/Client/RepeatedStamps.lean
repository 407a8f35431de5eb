import Odradek.Client.StampIdentity

/-!
A run whose calls repeat what they owe, call by call. Before its identity a transactional
producer is refused every stamp, so `initTransactions` starts every sequence where it was.
-/

namespace Odradek.Client

open Library Library.Service Odradek.Protocol ProducerWorld Producer

section Unborn

variable {codecs : Codecs} {config : ProducerConfig} {s t : ProducerWorld}
  {okExec okDrop : ProducerOp → ProducerChoice → ProducerWorld → Bool}
  {call : ProducerCall} {out : Option (Except ClientError Unit)}

/-- No identity yet, and no way to one but `initTransactions`. -/
structure Unborn (w : ProducerWorld) : Prop where
  barred : requireProducible w.producer.txnState ≠ .ok ()
  identity : w.producer.identity = none
  sequences : w.producer.sequences = ∅

theorem Unborn.of_eq (h : Unborn s) (hproducer : t.producer = s.producer) : Unborn t := by
  obtain ⟨hbarred, hidentity, hsequences⟩ := h
  rw [← hproducer] at hbarred hidentity hsequences
  exact ⟨hbarred, hidentity, hsequences⟩

theorem Unborn.alike (h : Unborn s) (halike : Alike s t) : Unborn t := by
  refine ⟨?_, halike.identity.trans h.identity, halike.sequences.trans h.sequences⟩
  rw [halike.txnState]
  exact h.barred

theorem Unborn.poisoned (h : Unborn s) (e : ClientError) : Unborn (poisoned s e) := by
  refine ⟨?_, h.identity, h.sequences⟩
  show requireProducible (afterFailure s.producer.txnState e) ≠ .ok ()
  have hbarred := h.barred
  cases hstate : s.producer.txnState with
  | disabled =>
      rw [hstate] at hbarred
      exact hbarred
  | opened =>
      rw [hstate] at hbarred
      exact absurd rfl hbarred
  | uninitialized | ready | abortable | fenced =>
      by_cases hfencing : isFencing e <;> simp only [afterFailure, hfencing] <;> exact nofun

theorem Unborn.not_opened (h : Unborn s) : s.producer.txnState ≠ .opened := by
  intro hopened
  refine h.barred ?_
  rw [hopened]
  rfl

theorem Unborn.unidentified (h : Unborn s) {outcome : Option (Except ClientError ProducerIdentity)}
    (hidentifies : Identifies config okDrop s outcome t) : ∃ e, outcome =
    some (.error e) ∧ s = t := by
  cases hidentifies with
  | known identity hsome =>
      rw [h.identity] at hsome
      cases hsome
  | refused e => exact ⟨e, rfl, rfl⟩
  | issued _ _ _ hproducible | unissued _ _ _ hproducible | dropped _ _ hproducible =>
      exact absurd hproducible h.barred

/-- A producer without an identity takes no stamp. -/
theorem unborn_frame (hidempotent : config.idempotent = true) :
    Frame codecs config okExec okDrop Unborn (· = none) where
  alike h halike := h.alike halike
  claims h hclaims := by
    cases hclaims with
    | unneeded hstate =>
        refine absurd ?_ h.barred
        obtain hstate | ⟨hstate, _⟩ := hstate <;> rw [hstate] <;> rfl
    | refused => exact h
    | answered _ _ _ hopened | dropped _ _ hopened => exact absurd hopened h.not_opened
  stamps h hstamps := by
    cases hstamps with
    | plain hplain => cases hplain.symm.trans hidempotent
    | refused => exact ⟨h, nofun⟩
    | unidentified _ _ _ _ hidentifies | dropped _ _ _ hidentifies =>
        obtain ⟨_, _, rfl⟩ := h.unidentified hidentifies
        exact ⟨h, nofun⟩
    | stamped _ _ _ _ hidentifies =>
        obtain ⟨_, heq, _⟩ := h.unidentified hidentifies
        cases heq
  flies h _ := h.of_eq producer_fly
  delivered h := h.of_eq rfl
  drained h := h.of_eq rfl
  accepted h := h.of_eq rfl
  rewound h hnone := by
    subst hnone
    exact h.of_eq rfl
  poisoned h := h.poisoned _

theorem Advances.uninitialized (h : Advances s t)
    (ht : t.producer.txnState = .uninitialized) : s.producer.txnState = .uninitialized := by
  obtain heq | ⟨_, heq⟩ | ⟨_, heq⟩ := h.state
  · exact heq.symm.trans ht
  · cases heq.symm.trans ht
  · cases heq.symm.trans ht

theorem uninitialized_of_endsTransaction {committed : Bool} {r : Except ClientError Unit}
    (ht : t.producer.txnState = .uninitialized)
    (h : EndsTransaction config okExec committed s r t) :
    s.producer.txnState = .uninitialized := by
  cases h with
  | refused => exact ht
  | answered _ answers =>
      cases r with
      | ok _ => cases ht
      | error e =>
          exact Advances.uninitialized (s := told s (.ended committed (.error e))
            (s.announced && !applied answers)) (.poisoned e) ht

/-- A producer that is uninitialised after a call was before it, and is as it was. -/
theorem unborn_of_call (hidempotent : config.idempotent = true)
    (h : s.producer.txnState = .uninitialized → Unborn s)
    (hcall : CallEnds codecs config okExec okDrop s call out t)
    (ht : t.producer.txnState = .uninitialized) : Unborn t := by
  have hframe : Frame codecs config okExec okDrop Unborn (· = none) := unborn_frame hidempotent
  cases hcall with
  | initTransactions _ _ hinit =>
      cases hinit with
      | refused => exact h ht
      | unissued => exact (h ht).of_eq rfl
      | issued => cases ht
  | beginTransaction _ _ hbegin =>
      cases hbegin with
      | refused => exact h ht
      | begun => cases ht
  | enqueue _ _ _ _ henqueues =>
      have hadvances : Advances s t := (Advances.frame s).enqueues .refl henqueues
      exact hframe.enqueues (h (hadvances.uninitialized ht)) henqueues
  | enqueueKeyed _ _ _ _ henqueues =>
      have hadvances : Advances s t := (Advances.frame s).enqueuesKeyed .refl henqueues
      exact hframe.enqueuesKeyed (h (hadvances.uninitialized ht)) henqueues
  | produce _ _ _ _ hproduces =>
      have hadvances : Advances s t := (Advances.frame s).produces .refl hproduces
      exact hframe.produces (h (hadvances.uninitialized ht)) hproduces
  | flush _ _ hflushes =>
      have hadvances : Advances s t := (Advances.frame s).flushes .refl hflushes
      exact hframe.flushes (h (hadvances.uninitialized ht)) hflushes
  | sendOffsets _ _ r _ hsends =>
      cases hsends with
      | refused => exact h ht
      | unannounced _ _ answers e hopened =>
          have hs : s.producer.txnState = .uninitialized :=
            Advances.uninitialized (s := offsetsTold s answers (.error e)) (.poisoned e) ht
          cases hopened.symm.trans hs
      | nothing => exact (h ht).of_eq rfl
      | answered _ _ _ answers _ _ hopened =>
          cases r with
          | ok _ => exact (h ht).of_eq rfl
          | error e =>
              have hs : s.producer.txnState = .uninitialized := Advances.uninitialized
                (s := (offsetsTold s answers (.ok ())).note (.offsets (.error e))) (.poisoned e) ht
              cases hopened.symm.trans hs
  | commitTransaction _ _ hcommits =>
      have hflushed {outcome : Except ClientError (List Delivery)} {u : ProducerWorld}
          (hopened : s.producer.txnState = .opened)
          (hflushes : Flushes codecs config okExec okDrop s (some outcome) u) :
          u.producer.txnState ≠ .uninitialized := fun hu => by
        have hadvances : Advances s u := (Advances.frame s).flushes .refl hflushes
        cases hopened.symm.trans (hadvances.uninitialized hu)
      cases hcommits with
      | refused => exact h ht
      | unflushed e u hopened hflushes =>
          exact absurd (Advances.uninitialized (.poisoned e) ht) (hflushed hopened hflushes)
      | failed _ _ _ _ hopened hflushes hends =>
          exact absurd (uninitialized_of_endsTransaction ht hends) (hflushed hopened hflushes)
      | committed _ _ v hopened hflushes hends =>
          have hv : v.producer.txnState = .uninitialized := ht
          exact absurd (uninitialized_of_endsTransaction hv hends) (hflushed hopened hflushes)
  | abortTransaction _ _ haborts =>
      cases haborts with
      | refused => exact h ht
      | ended _ _ hstate hends =>
          have hs : s.producer.txnState = .uninitialized :=
            uninitialized_of_endsTransaction (s := discarded s) ht hends
          rw [hs] at hstate
          obtain hstate | hstate := hstate <;> cases hstate

end Unborn

section Calls

variable {codecs : Codecs} {config : ProducerConfig} {s t : ProducerWorld}
  {r : Except ClientError Unit}

theorem Underway.noted (h : Underway [] [] s) (event : ProducerEvent) (hquiet : Quiet event) :
    Underway [] [] (s.note event) :=
  h.quiet (fun _ => rfl) rfl (.noted hquiet)

theorem Underway.told (h : Underway [] [] s) (event : ProducerEvent) (hquiet : Quiet event)
    (announced : Bool) : Underway [] [] (told s event announced) :=
  (h.noted event hquiet).alike rfl rfl rfl

theorem Underway.poisoned (h : Underway [] [] s) (e : ClientError) :
    Underway [] [] (poisoned s e) :=
  h.alike rfl rfl rfl

theorem Underway.initializes (h : Underway [] [] s)
    (hunborn : s.producer.txnState = .uninitialized → Unborn s)
    (hinit : Initializes config s r t) : Underway [] [] t := by
  cases hinit with
  | refused => exact h
  | unissued _ e => exact h.told (.identified (.error e)) ⟨nofun, nofun⟩ _
  | issued answers identity huninitialized =>
      have hborn := hunborn huninitialized
      have htold : Underway [] [] (Client.told s (.identified (.ok identity))
          (s.announced && !applied answers)) :=
        h.told (.identified (.ok identity)) ⟨nofun, nofun⟩ _
      exact htold.quiet (fun hsome => absurd hborn.identity hsome) hborn.sequences.symm
        (.noted ⟨nofun, nofun⟩)

theorem Underway.endsTransaction {committed : Bool} (h : Underway [] [] s)
    (hends : EndsTransaction config always committed s r t) : Underway [] [] t := by
  cases hends with
  | refused => exact h
  | answered _ answers =>
      have htold : Underway [] [] (Client.told s (.ended committed r)
          (s.announced && !applied answers)) :=
        h.told (.ended committed r) ⟨nofun, nofun⟩ _
      cases r with
      | ok _ => exact htold.alike rfl rfl rfl
      | error e => exact htold.alike rfl rfl rfl

theorem Underway.sendsOffsets (h : Underway [] [] s)
    (hsends : SendsOffsets config always s r t) : Underway [] [] t := by
  cases hsends with
  | refused => exact h
  | unannounced _ _ _ e =>
      exact (h.told (.offsets (.error e)) ⟨nofun, nofun⟩ _).poisoned e
  | nothing => exact h.told (.offsets (.ok ())) ⟨nofun, nofun⟩ _
  | answered _ _ _ answers =>
      have htold : Underway [] [] (offsetsTold s answers (.ok ())) :=
        h.told (.offsets (.ok ())) ⟨nofun, nofun⟩ _
      have hnoted := htold.noted (.offsets r) ⟨nofun, nofun⟩
      cases r with
      | ok _ => exact hnoted
      | error e => exact hnoted.poisoned e

theorem Underway.commits (h : Underway [] [] s) (hidempotent : config.idempotent = true)
    (hrepeats : requireProducible s.producer.txnState = .ok () →
      ∀ key ∈ s.producer.pending.keys, Repeats s key (s.producer.slot key).records)
    (hcommits : Commits codecs config always always s r t) : Underway [] [] t := by
  cases hcommits with
  | refused => exact h
  | unflushed e _ _ hflushes => exact (h.flushes hidempotent hrepeats hflushes).poisoned e
  | failed _ _ _ _ _ hflushes hends =>
      exact (h.flushes hidempotent hrepeats hflushes).endsTransaction hends
  | committed _ _ _ _ hflushes hends =>
      exact ((h.flushes hidempotent hrepeats hflushes).endsTransaction hends).noted .committed
        ⟨nofun, nofun⟩

/-- A call that repeats what it owes leaves every counter at the number next in line. -/
theorem Underway.call {call : ProducerCall} (h : Underway [] [] s)
    (hunborn : s.producer.txnState = .uninitialized → Unborn s)
    (hidempotent : config.idempotent = true)
    (hrepeats : requireProducible s.producer.txnState = .ok () →
      ∀ key records, Sends config s call key records → Repeats s key records)
    (hends : (ProducerUnder codecs config always always).Ends (call.body config) s (some r) t) :
    Underway [] [] t := by
  cases call with
  | initTransactions =>
      exact h.initializes hunborn (ends_initTransactions hends)
  | beginTransaction =>
      cases ends_beginTransaction hends with
      | refused => exact h
      | begun => exact (h.noted .began ⟨nofun, nofun⟩).alike rfl rfl rfl
  | enqueue key record =>
      obtain ⟨out, hcall, hout⟩ := ends_void hends
      cases out with
      | none => cases hout
      | some outcome =>
          exact h.enqueues hidempotent
            (fun hproducible hfills => hrepeats hproducible _ _ (.enqueue key record hfills)) hcall
  | enqueueKeyed topic record =>
      obtain ⟨out, hcall, hout⟩ := ends_void hends
      obtain ⟨_, _, rfl⟩ | ⟨rfl, _⟩ | ⟨partition, cursor, hrouted⟩ := ends_routed hcall
      · exact h
      · cases hout
      · cases out with
        | none => cases hout
        | some outcome =>
            have hrotated : Underway [] [] (rotated s cursor) := h.alike rfl rfl rfl
            refine hrotated.enqueues hidempotent (fun hproducible hfills => ?_) hrouted
            have hsends := Sends.enqueueKeyed (s := s) topic partition record hfills
            exact (hrepeats hproducible _ _ hsends).quiet rfl .refl
  | produce key records =>
      obtain ⟨out, hcall, hout⟩ := ends_void hends
      cases out with
      | none => cases hout
      | some outcome =>
          exact h.produces hidempotent
            (fun hproducible => hrepeats hproducible _ _ (.produce key records))
              (ends_produce hcall)
  | flush =>
      obtain ⟨out, hcall, hout⟩ := ends_void hends
      cases out with
      | none => cases hout
      | some outcome =>
          exact h.flushes hidempotent
            (fun hproducible key hkey => hrepeats hproducible _ _ (.flush key hkey))
              (ends_flush hcall)
  | sendOffsets member offsets =>
      exact h.sendsOffsets
        (ends_sendOffsetsToTransaction hends)
  | commitTransaction =>
      exact h.commits hidempotent
        (fun hproducible key hkey => hrepeats hproducible _ _ (.commit key hkey))
        (ends_commitTransaction hends)
  | abortTransaction =>
      cases ends_abortTransaction hends with
      | refused => exact h
      | ended _ _ _ hended =>
          have hdiscarded : Underway [] [] (discarded s) := h.alike rfl rfl rfl
          exact hdiscarded.endsTransaction hended

theorem Underway.fresh : Underway [] [] (.fresh config) where
  identified := nofun
  follows _ := .nil
  acked _ := rfl
  counted _ _ := rfl
  failed := nofun
  flying := nofun
  nodup := .nil

/-- In a run that repeats what it owes every counter is accounted for. -/
theorem underway_of_repeatingSessions (hidempotent : config.idempotent = true)
    (h : RepeatingSessions codecs config s) : Underway [] [] s := by
  suffices hboth : Underway [] [] s ∧ (s.producer.txnState = .uninitialized → Unborn s) from hboth.1
  refine Reachable.invariant (P := fun s => Underway [] [] s ∧
    (s.producer.txnState = .uninitialized → Unborn s)) (fun s hinit => ?_)
    (fun s call t hs hstep => ?_) h
  · subst hinit
    refine ⟨.fresh, fun hstate => ⟨?_, rfl, rfl⟩⟩
    rw [hstate]
    exact nofun
  · obtain ⟨hunderway, hunborn⟩ := hs
    obtain ⟨hrepeats, r, hends⟩ := hstep
    have hends : (ProducerUnder codecs config always always).Ends (call.body config) s (some r) t :=
      hends
    refine ⟨hunderway.call hunborn hidempotent hrepeats hends, ?_⟩
    exact unborn_of_call hidempotent hunborn (ends_call hends nofun)

end Calls

section Deliveries

variable {codecs : Codecs} {config : ProducerConfig} {s t : ProducerWorld} {parcel : Parcel}
  {key : PartitionKey} {records : List Record}

def Acknowledged (s t : ProducerWorld) (key : PartitionKey) (records : List Record) : Prop :=
  ackedBatches key t.log = ackedBatches key s.log ++ [records]

theorem acked_sent {set : Bytes} {applied : Bool} (key : PartitionKey) :
    ackedBatches key (s.note (.sent parcel set applied)).log = ackedBatches key s.log := by
  have hnotAck : NotAck (.sent parcel set applied) := nofun
  exact Tells.acked_eq (.noted hnotAck) key

theorem acked_attempts {set : Bytes} {answers : List (Answer Int64)}
    (herrors : ∀ a ∈ answers, ∃ e, a.result = .error e) (key : PartitionKey) :
    ackedBatches key (answers.foldl (fun w a => w.attempt parcel set a) s).log =
      ackedBatches key s.log := by
  induction answers generalizing s with
  | nil => rfl
  | cons a answers ih =>
      obtain ⟨e, he⟩ := herrors a List.mem_cons_self
      refine (ih fun other hmem => herrors other (List.mem_cons_of_mem _ hmem)).trans ?_
      dsimp only
      rw [attempt_failed he]
      split
      · exact acked_sent key
      · rfl

/-- What comes to an offset was acknowledged, once. -/
theorem acked_fly {flight : Flight} {baseOffset : Int64}
    (h : landing codecs config parcel flight = some (.ok baseOffset)) (key : PartitionKey) :
    ackedBatches key (s.fly codecs config parcel flight).log =
      ackedBatches key s.log ++ if parcel.key = key then [parcel.pending.records] else [] := by
  unfold landing at h
  unfold fly
  split at h
  · obtain ⟨_, heq⟩ := Option.ite_none_right_eq_some.mp h
    cases heq
  next set _ =>
    obtain ⟨_, e, heq⟩ | ⟨front, a, hanswers, hresult, hsound, herrors⟩ := answers_of_verdict h
    · cases heq
    have hfront : ackedBatches key (front.foldl (fun w a => w.attempt parcel set a) s).log =
        ackedBatches key s.log := acked_attempts herrors key
    simp only [hanswers, List.foldl_append, List.foldl_cons, List.foldl_nil]
    rw [attempt_answered hresult hsound, ← hfront]
    refine (ackedBatches_append key _ _ _).trans (congrArg₂ _ (acked_sent key) ?_)
    simp only [ackedBatch]
    split <;> rfl

theorem acked_landed {flight : Flight} {baseOffset : Int64}
    (h : landing codecs config parcel flight = some (.ok baseOffset)) (key : PartitionKey) :
    ackedBatches key
        ((s.fly codecs config parcel flight).note (.delivered parcel.key (.ok baseOffset))).log =
      ackedBatches key s.log ++ if parcel.key = key then [parcel.pending.records] else [] := by
  have hnotAck : NotAck (.delivered parcel.key (.ok baseOffset)) := nofun
  exact (Tells.acked_eq (.noted hnotAck) key).trans (acked_fly h key)

theorem acknowledged_delivers {baseOffset : Int64}
    (h : Delivers codecs config always always parcel s (some (.ok baseOffset)) t) :
    Acknowledged s t parcel.key parcel.pending.records := by
  cases h with
  | landed flight _ _ hlanding =>
      refine (acked_landed hlanding _).trans ?_
      rw [if_pos rfl]

theorem acked_deliver {parcels : List Parcel} {flights : List Flight}
    {outcomes : List (Except ClientError Int64)} (hnodup : (parcels.map (·.key)).Nodup)
    (hoks : ∀ result ∈ parcels.zip outcomes, ∃ baseOffset, result.2 = .ok baseOffset)
    (h : s.deliver codecs config parcels flights = some (outcomes, t)) :
    (∀ parcel ∈ parcels, Acknowledged s t parcel.key parcel.pending.records) ∧
      ∀ key, key ∉ parcels.map (·.key) → ackedBatches key t.log = ackedBatches key s.log := by
  induction parcels generalizing s flights outcomes with
  | nil =>
      obtain ⟨_, _, rfl⟩ := deliver_nil h
      exact ⟨nofun, fun _ _ => rfl⟩
  | cons parcel parcels ih =>
      obtain ⟨flight, flights', outcome, outcomes', _, hlanding, hrest, rfl⟩ := deliver_cons h
      obtain ⟨hfresh, hnodup'⟩ := List.nodup_cons.mp hnodup
      obtain ⟨baseOffset, hok⟩ := hoks (parcel, outcome) List.mem_cons_self
      obtain rfl : outcome = .ok baseOffset := hok
      have hone (key : PartitionKey) : ackedBatches key
            ((s.fly codecs config parcel flight).note
              (.delivered parcel.key (.ok baseOffset))).log =
          ackedBatches key s.log ++ if parcel.key = key then [parcel.pending.records] else [] :=
        acked_landed hlanding key
      obtain ⟨hmine, hothers⟩ :=
        ih hnodup' (fun result hmem => hoks result (List.mem_cons_of_mem _ hmem)) hrest
      refine ⟨fun other hmem => ?_, fun key hkey => ?_⟩
      · obtain rfl | hmem := List.mem_cons.mp hmem
        · refine (hothers _ hfresh).trans ((hone _).trans ?_)
          rw [if_pos rfl]
        · have hne : parcel.key ≠ other.key := fun heq =>
            hfresh (List.mem_map.mpr ⟨other, hmem, heq.symm⟩)
          refine (hmine other hmem).trans ?_
          rw [hone, if_neg hne, List.append_nil]
      · obtain ⟨hne, hkey⟩ := not_or.mp (mt List.mem_cons.mpr hkey)
        refine (hothers key hkey).trans ((hone key).trans ?_)
        rw [if_neg (Ne.symm hne), List.append_nil]

theorem Acknowledged.after {u : ProducerWorld} (h : Acknowledged u t key records)
    (htells : Tells NotAck s u) : Acknowledged s t key records := by
  rw [Acknowledged, ← htells.acked_eq]
  exact h

theorem Acknowledged.noted (h : Acknowledged s t key records) {event : ProducerEvent}
    (hnotAck : NotAck event) : Acknowledged s (t.note event) key records :=
  (Tells.acked_eq (.noted hnotAck) key).trans h

theorem acknowledged_produces {baseOffset : Int64}
    (h : Produces codecs config always always key records s (some (.ok baseOffset)) t) :
    Acknowledged s t key records := by
  cases h with
  | delivered stamp _ u v _ hclaims hstamps hdelivers =>
      have hlands : Acknowledged v t key records := acknowledged_delivers hdelivers
      exact hlands.after ((NotAck.of_claims hclaims).trans (NotAck.of_stamps hstamps))

theorem acknowledged_flushesPartition {delivery : Delivery}
    (h : FlushesPartition codecs config always always key s (some (.ok delivery)) t) :
    Acknowledged s t key (s.producer.slot key).records := by
  cases h with
  | delivered stamp _ u v _ hclaims hstamps hdelivers =>
      have hlands : Acknowledged v t key (s.producer.slot key).records :=
        acknowledged_delivers hdelivers
      exact hlands.after ((NotAck.of_claims hclaims).trans (NotAck.of_stamps hstamps))

/-- A flush that succeeds has every buffered record acknowledged. -/
theorem acknowledged_flushes {deliveries : List Delivery}
    (h : Flushes codecs config always always s (some (.ok deliveries)) t)
    (hkey : key ∈ s.producer.pending.keys) :
    Acknowledged s t key (s.producer.slot key).records := by
  cases h with
  | empty hnone =>
      rw [hnone] at hkey
      cases hkey
  | delivered keys stamped flights outcomes _ u v w hperm _ hclaims hstamps _ hdeliver hnone =>
      have hoks := (failureOf_none hnone).2
      obtain ⟨hstamped, _, htells, _⟩ := stampsAll_ok hstamps rfl
      have hparcels : stamped.map (fun parcel => (parcel.key, parcel.pending)) =
          keys.map fun key => (key, s.producer.slot key) := hstamped
      have hdrained : Tells NotAck s (s.drain keys).2 := .noted (nofun : NotAck (.drained keys))
      have hidentified : Tells NotAck u v := htells.mono fun _ ⟨_, heq⟩ _ _ hacked => by
        rw [heq] at hacked
        cases hacked
      have hnodup : (stamped.map (·.key)).Nodup := by
        rw [keys_stamped hstamps]
        exact nodup_of_perm hperm
      obtain ⟨parcel, hmem, hparcel⟩ : ∃ parcel ∈ stamped,
          (parcel.key, parcel.pending) = (key, s.producer.slot key) := by
        have hbatch := List.mem_map_of_mem (f := fun key => (key, s.producer.slot key))
          (hperm.mem_iff.mpr hkey)
        rw [← hparcels] at hbatch
        exact List.mem_map.mp hbatch
      obtain ⟨hparcelKey, hpending⟩ := Prod.mk.inj hparcel
      have hlands := (acked_deliver hnodup hoks hdeliver).1 parcel hmem
      rw [hparcelKey, hpending] at hlands
      rw [settled_of_ok hoks]
      exact hlands.after (hdrained.trans ((NotAck.of_claims hclaims).trans hidentified))

theorem acknowledged_enqueue {record : Record} {delivery : Delivery}
    (h : (ProducerUnder codecs config always always).Ends (enqueue config key record).run s
      (some (.ok (some delivery))) t) :
    Acknowledged s t key ((s.producer.push key record).slot key).records := by
  cases ends_enqueue h with
  | flushed _ u hflush =>
      have hlands : Acknowledged s u key ((pushed s key record).producer.slot key).records :=
        acknowledged_flushesPartition hflush
      exact hlands.noted (nofun : NotAck (.accepted key record))

/-- What a call delivers before it returns `Ok` was acknowledged. -/
structure OksAcknowledged (codecs : Codecs) (config : ProducerConfig) (s t : ProducerWorld) :
    Prop where
  produce : ∀ key records baseOffset,
    (producerService codecs config).Ends (Producer.produce config key records).run s
      (some (.ok baseOffset)) t → Acknowledged s t key records
  flush : ∀ deliveries, (producerService codecs config).Ends (Producer.flush config).run s
      (some (.ok deliveries)) t →
    ∀ key ∈ s.producer.pending.keys, Acknowledged s t key (s.producer.slot key).records
  enqueue : ∀ key record delivery,
    (producerService codecs config).Ends (Producer.enqueue config key record).run s
      (some (.ok (some delivery))) t →
    Acknowledged s t key ((s.producer.push key record).slot key).records
  enqueueKeyed : ∀ topic record delivery,
    (producerService codecs config).Ends (Producer.enqueueKeyed config topic record).run s
      (some (.ok (some delivery))) t →
    ∃ partition, Acknowledged s t (topic, partition)
      ((s.producer.push (topic, partition) record).slot (topic, partition)).records
  commit : (producerService codecs config).Ends (commitTransaction config).run s
      (some (.ok ())) t →
    ∀ key ∈ s.producer.pending.keys, Acknowledged s t key (s.producer.slot key).records

theorem oksAcknowledged (codecs : Codecs) (config : ProducerConfig) (s t : ProducerWorld) :
    OksAcknowledged codecs config s t where
  produce key records baseOffset h := by
    have h : (ProducerUnder codecs config always always).Ends _ s _ t := h
    exact acknowledged_produces (ends_produce h)
  flush deliveries h key hkey := by
    have h : (ProducerUnder codecs config always always).Ends _ s _ t := h
    exact acknowledged_flushes (ends_flush h) hkey
  enqueue key record delivery h := acknowledged_enqueue h
  enqueueKeyed topic record delivery h := by
    have h : (ProducerUnder codecs config always always).Ends _ s _ t := h
    obtain ⟨_, heq, _⟩ | ⟨heq, _⟩ | ⟨partition, cursor, hrouted⟩ := ends_routed h
    · cases heq
    · cases heq
    · have hlands : Acknowledged (rotated s cursor) t (topic, partition) _ :=
        acknowledged_enqueue hrouted
      exact ⟨partition, hlands⟩
  commit h key hkey := by
    have h : (ProducerUnder codecs config always always).Ends _ s _ t := h
    cases ends_commitTransaction h with
    | committed _ u v _ hflushes hends =>
        have hlands : Acknowledged s u key (s.producer.slot key).records :=
          acknowledged_flushes hflushes hkey
        have hended : Tells NotAck u v := by
          cases hends with
          | answered => exact .noted (nofun : NotAck (.ended true (.ok ())))
        refine (Tells.acked_eq ?_ key).trans hlands
        exact hended.trans (.noted (nofun : NotAck .committed))

end Deliveries

section Identity

variable {codecs : Codecs} {config : ProducerConfig} {s : ProducerWorld} {key : PartitionKey}

theorem mem_signalsAt {parcel : Parcel} {set : Bytes} {applied : Bool} {p : Producer}
    {stamp : BatchStamp} {log : ProducerLog} (hstamp : parcel.stamp = some stamp)
    (hmem : (ProducerEvent.sent parcel set applied, p) ∈ log) :
    .sent (parcel.span stamp) applied ∈ signalsAt parcel.key log := by
  refine List.mem_filterMap.mpr ⟨_, hmem, ?_⟩
  simp only [signalAt, if_true, hstamp, Option.map_some]

theorem stampsIdentify_of_underway (h : Underway [] [] s) : StampsIdentify s.log := by
  intro parcel parcel' set set' applied applied' p p' stamp stamp' hmem hmem' hstamp hstamp' _ _
    hkey hbase
  have hsent := mem_signalsAt hstamp hmem
  have hsent' := mem_signalsAt hstamp' hmem'
  rw [← hkey] at hsent'
  have hspans : parcel.span stamp = parcel'.span stamp' :=
    (h.follows parcel.key).placed.same _ _ _ _ hsent hsent' (congrArg Int32.toInt hbase)
  exact congrArg Span.items hspans

theorem loggedOnce_of_underway (h : Underway [] [] s) : LoggedOnce key s.log := by
  obtain ⟨r, rest, hreceived, htaken, _, hfull, hordered⟩ := (h.follows key).received
  refine ⟨r, (senderAt key s.log).acked, hreceived, ?_, h.acked key,
    Sender.nodup_bases hfull hordered⟩
  rw [htaken]
  exact List.sublist_append_left _ _

/-- Every run of an idempotent producer in which a call that sends for a partition that owes
a batch sends that batch. -/
theorem stamps_identify (codecs : Codecs) (config : ProducerConfig) (s : ProducerWorld)
    (hidempotent : config.idempotent = true) (h : RepeatingSessions codecs config s) :
    StampsIdentify s.log ∧ (∀ key, LoggedOnce key s.log) ∧
      ∀ t, OksAcknowledged codecs config s t := by
  have hunderway := underway_of_repeatingSessions hidempotent h
  exact ⟨stampsIdentify_of_underway hunderway, fun _ => loggedOnce_of_underway hunderway,
    oksAcknowledged codecs config s⟩

def hasty : ProducerConfig := { ProducerConfig.default with maxAttempts := 1 }

def otherRecord : Record := { Record.minimal with value := some [1] }

/-- The broker took the batch; its answer is lost. -/
def unheard : Answer Int64 := { sent := true, applied := true, result := .error .connectionClosed }

def unheardTurns : List (Turn ProducerChoice) :=
  [.go .go, .go .go, .go (.identities [.took ⟨7, 0⟩]), .go .go, .go .go, .go .go,
    .go (.flights [{ nowMs := 0, answers := [unheard] }]), .go .go, .go .go, .go .go, .go .go]

def heardTurns : List (Turn ProducerChoice) :=
  [.go .go, .go .go, .go .go, .go (.flights [{ nowMs := 0, answers := [.took 0] }])]

def sentParcels (log : ProducerLog) : List Parcel :=
  log.filterMap fun entry => match entry.1 with
    | .sent parcel _ _ => some parcel
    | _ => none

def partitionOf : ProducerEvent → Option PartitionKey
  | .sent parcel _ _ => some parcel.key
  | .acked key _ => some key
  | _ => none

theorem signalAt_eq_none {event : ProducerEvent} {key : PartitionKey}
    (h : partitionOf event ≠ some key) : signalAt key event = none := by
  cases event with
  | sent parcel set applied => exact if_neg fun heq => h (congrArg some heq)
  | acked k records => exact if_neg fun heq => h (congrArg some heq)
  | _ => rfl

theorem sent_of_mem_sentParcels {parcel : Parcel} {log : ProducerLog}
    (h : parcel ∈ sentParcels log) :
    ∃ set applied p, (ProducerEvent.sent parcel set applied, p) ∈ log := by
  obtain ⟨⟨event, p⟩, hmem, hevent⟩ := List.mem_filterMap.mp h
  cases event with
  | sent parcel' set applied =>
      cases hevent
      exact ⟨set, applied, p, hmem⟩
  | _ => cases hevent

def firstParcel (record : Record) : Parcel :=
  { key := ("t", 0)
    pending := { records := [record], estimatedBytes := 0 }
    stamp := some
      { producerId := 7, producerEpoch := 0, baseSequence := 0, transactional := false } }

theorem stamps_identify_resent : ∃ s : ProducerWorld,
    sentParcels s.log = [firstParcel Record.minimal, firstParcel Record.minimal] ∧
      StampsIdentify s.log ∧ ∀ key, LoggedOnce key s.log := by
  have hrun : (((producerService Codecs.stored hasty).replay unheardTurns
      (ProducerCall.body hasty (.produce ("t", 0) [Record.minimal])) (.fresh hasty)).bind fun out =>
        ((producerService Codecs.stored hasty).replay heardTurns
          (ProducerCall.body hasty (.produce ("t", 0) [Record.minimal])) out.2).map fun out' =>
            (out.1.isSome && out'.1.isSome) &&
              (decide ((senderAt ("t", 0) out.2.log).owed = some [Record.minimal]) &&
                decide (counter out.2.producer ("t", 0) = 0)) &&
              decide (sentParcels out'.2.log =
                [firstParcel Record.minimal, firstParcel Record.minimal])) = some true := by
    decide
  obtain ⟨⟨out, u⟩, hfirst, hrest⟩ := Option.bind_eq_some_iff.mp hrun
  obtain ⟨⟨out', s⟩, hsecond, hchecks⟩ := Option.map_eq_some_iff.mp hrest
  simp only [Bool.and_eq_true, decide_eq_true_eq] at hchecks
  obtain ⟨⟨⟨hout, hout'⟩, howed, hcounter⟩, hsent⟩ := hchecks
  obtain ⟨r, rfl⟩ := Option.isSome_iff_exists.mp hout
  obtain ⟨r', rfl⟩ := Option.isSome_iff_exists.mp hout'
  have hu : RepeatingSessions Codecs.stored hasty u := by
    refine .step (.produce ("t", 0) [Record.minimal]) (.start rfl)
      ⟨fun _ key records hsends => ?_, r, .of_replay hfirst⟩
    cases hsends
    exact ⟨nofun, by decide⟩
  have hs : RepeatingSessions Codecs.stored hasty s := by
    refine .step (.produce ("t", 0) [Record.minimal]) hu
      ⟨fun _ key records hsends => ?_, r', .of_replay hsecond⟩
    cases hsends
    refine ⟨fun _ owed h => Option.some.inj (h.symm.trans howed), ?_⟩
    rw [hcounter]
    decide
  obtain ⟨hidentify, hlogged, _⟩ := stamps_identify Codecs.stored hasty s rfl hs
  exact ⟨s, hsent, hidentify, hlogged⟩

/-- Another record goes out under the number of one whose acknowledgement was lost: the broker
takes it for that one, and it is in no log. -/
theorem not_stamps_identify : ∃ s : ProducerWorld,
    ProducerSessions (producerService Codecs.stored hasty) hasty (fun _ => false) s ∧
      (∀ key, Brokered key s.log) ∧ ¬ StampsIdentify s.log ∧ ¬ LoggedOnce ("t", 0) s.log := by
  have hrun : ((producerService Codecs.stored hasty).replayAll (ProducerCall.body hasty)
      (fun _ => false) [(.produce ("t", 0) [Record.minimal], unheardTurns),
        (.produce ("t", 0) [otherRecord], heardTurns)] (.fresh hasty)).map (fun s =>
          (s.log.all fun entry => (partitionOf entry.1).all (· = ("t", 0))) &&
          decide (sentParcels s.log = [firstParcel Record.minimal, firstParcel otherRecord]) &&
          (decide ((Receiver.received (signalsAt ("t", 0) s.log)).map (·.taken.map (·.items)) =
              some [[Record.minimal]]) &&
            decide (ackedBatches ("t", 0) s.log = [[otherRecord]]))) = some true := by
    decide
  obtain ⟨s, hs, hchecks⟩ := Option.map_eq_some_iff.mp hrun
  simp only [Bool.and_eq_true, decide_eq_true_eq] at hchecks
  obtain ⟨⟨hkeys, hsent⟩, hreceived, hacked⟩ := hchecks
  obtain ⟨broker, hbroker, htaken⟩ := Option.map_eq_some_iff.mp hreceived
  refine ⟨s, .of_replayAll (.start rfl) hs, fun key => ?_, fun hidentify => ?_, ?_⟩
  · by_cases hkey : ("t", 0) = key
    · rw [← hkey, Brokered, hbroker]
      rfl
    · have hnone : signalsAt key s.log = [] := by
        refine List.filterMap_eq_nil_iff.mpr fun entry hmem => signalAt_eq_none fun hentry => ?_
        have hpartition := List.all_eq_true.mp hkeys entry hmem
        rw [hentry] at hpartition
        exact hkey (of_decide_eq_true hpartition).symm
      rw [Brokered, hnone]
      rfl
  · obtain ⟨set, applied, p, hmem⟩ : ∃ set applied p,
        (ProducerEvent.sent (firstParcel Record.minimal) set applied, p) ∈ s.log :=
      sent_of_mem_sentParcels (hsent ▸ List.mem_cons_self)
    obtain ⟨set', applied', p', hmem'⟩ : ∃ set applied p,
        (ProducerEvent.sent (firstParcel otherRecord) set applied, p) ∈ s.log :=
      sent_of_mem_sentParcels (hsent ▸ List.mem_cons_of_mem _ List.mem_cons_self)
    have hsame := hidentify _ _ _ _ _ _ _ _ _ _ hmem hmem' rfl rfl rfl rfl rfl rfl
    exact absurd hsame (by decide)
  · rintro ⟨r, spans, hr, hsublist, hitems, _⟩
    cases hbroker.symm.trans hr
    have hmapped := hsublist.map (·.items)
    rw [hitems, hacked, htaken] at hmapped
    exact absurd hmapped (by decide)

end Identity

end Odradek.Client
