import Odradek.Client.FailedFlush

/-!
Fencing in a flush. The failure a flush reports is the one of the lowest
partition, and it is the only one the state of the transaction hears of: a
partition that was told it is fenced goes unnoticed where a lower one failed with
anything else.
-/

namespace Odradek.Client

open Library Library.Service Odradek.Protocol ProducerWorld Producer

variable {codecs : Codecs} {config : ProducerConfig}
  {okExec okDrop : ProducerOp → ProducerChoice → ProducerWorld → Bool}
  {s t u v w : ProducerWorld} {key : PartitionKey} {keys : List PartitionKey} {parcel : Parcel}
  {parcels : List Parcel}

section Outcomes

abbrev PartitionOutcome := PartitionKey × Except ClientError Int64

def outcomeOf : ProducerEvent → Option PartitionOutcome
  | .delivered key answer => some (key, answer)
  | _ => none

def outcomesIn (new : ProducerLog) : List PartitionOutcome :=
  new.filterMap fun entry => outcomeOf entry.1

/-- What the deliveries of a call came to, in the order they are on record. -/
def outcomesSince (s t : ProducerWorld) : List PartitionOutcome :=
  outcomesIn (t.log.drop s.log.length)

def isFenced : PartitionOutcome → Bool
  | (_, .ok _) => false
  | (_, .error e) => isFencing e

def Fences (outcomes : List PartitionOutcome) : Prop :=
  ∃ key e, (key, .error e) ∈ outcomes ∧ isFencing e = true

/-- The failed delivery of the lowest partition did. -/
def LowestFences (outcomes : List PartitionOutcome) : Prop :=
  ∃ key e, (key, .error e) ∈ outcomes ∧ isFencing e = true ∧
    ∀ key' e', (key', .error e') ∈ outcomes → keyBefore key' key = false

/-- What is on record from `s` to `t` of deliveries. -/
def Delivered (outcomes : List PartitionOutcome) (s t : ProducerWorld) : Prop :=
  ∃ new, t.log = s.log ++ new ∧ outcomesIn new = outcomes

def NotDelivery (event : ProducerEvent) : Prop := outcomeOf event = none

theorem Delivered.of_tells (h : Tells NotDelivery s t) : Delivered [] s t := by
  obtain ⟨new, hnew, hall⟩ := h
  exact ⟨new, hnew, List.filterMap_eq_nil_iff.mpr hall⟩

theorem Delivered.trans {outcomes outcomes' : List PartitionOutcome}
    (h : Delivered outcomes s t) (h' : Delivered outcomes' t u) :
    Delivered (outcomes ++ outcomes') s u := by
  obtain ⟨new, hnew, rfl⟩ := h
  obtain ⟨new', hnew', rfl⟩ := h'
  exact ⟨new ++ new', by rw [hnew', hnew, List.append_assoc], List.filterMap_append⟩

theorem Delivered.noted {answer : Except ClientError Int64} :
    Delivered [(key, answer)] s (s.note (.delivered key answer)) :=
  ⟨[(.delivered key answer, s.producer)], rfl, rfl⟩

theorem NotDelivery.of_claims {out : Option (Except ClientError Unit)}
    (h : Claims config okExec okDrop keys s out t) : Tells NotDelivery s t :=
  h.buffers.2.mono fun event ⟨_, _, heq⟩ => by subst heq; rfl

theorem NotDelivery.of_stamps {n : Nat} {out : Option (Except ClientError (Option BatchStamp))}
    (h : Stamps config okExec okDrop key n s out t) : Tells NotDelivery s t :=
  h.buffers.2.mono fun event ⟨_, heq, _⟩ => by subst heq; rfl

theorem NotDelivery.of_stampsAll {batches : List (PartitionKey × PendingBatch)}
    {stamped : List Parcel} {out : Option (Except ClientError (List Parcel))}
    (h : StampsAll config okExec okDrop batches stamped s out t) : Tells NotDelivery s t := by
  induction h with
  | nil stamped s => exact .refl
  | cons key pending stamp hstamp _ ih => exact (NotDelivery.of_stamps hstamp).trans ih
  | failed key pending e hstamp =>
      refine (NotDelivery.of_stamps hstamp).trans (.of_eq ?_)
      exact log_restoredAll
  | dropped key pending hstamp => exact NotDelivery.of_stamps hstamp

theorem delivered_of_deliver {flights : List Flight}
    {outcomes : List (Except ClientError Int64)}
    (h : s.deliver codecs config parcels flights = some (outcomes, t)) :
    Delivered ((parcels.zip outcomes).map fun result => (result.1.key, result.2)) s t := by
  induction parcels generalizing s flights outcomes with
  | nil =>
      obtain ⟨_, rfl, rfl⟩ := deliver_nil h
      exact .of_tells .refl
  | cons parcel rest ih =>
      obtain ⟨flight, flights', outcome, outcomes', _, _, hrest, rfl⟩ := deliver_cons h
      have hflown : Tells NotDelivery s (s.fly codecs config parcel flight) :=
        fly_tells (fun _ _ => rfl) rfl
      exact ((Delivered.of_tells hflown).trans .noted).trans (ih hrest)

end Outcomes

section Lowest

theorem keyBefore_iff {a b : PartitionKey} :
    keyBefore a b = true ↔ a.1 < b.1 ∨ (a.1 = b.1 ∧ a.2.toInt < b.2.toInt) := by
  simp only [keyBefore, Bool.or_eq_true, Bool.and_eq_true, decide_eq_true_eq,
    Int32.lt_iff_toInt_lt]

theorem keyBefore_trans {a b c : PartitionKey} (hab : keyBefore a b = true)
    (hbc : keyBefore b c = true) : keyBefore a c = true := by
  rw [keyBefore_iff] at *
  rcases hab with hab | ⟨hab, hab'⟩
  · rcases hbc with hbc | ⟨hbc, _⟩
    · exact .inl (String.lt_trans hab hbc)
    · exact .inl (hbc ▸ hab)
  · rcases hbc with hbc | ⟨hbc, hbc'⟩
    · exact .inl (hab ▸ hbc)
    · exact .inr ⟨hab.trans hbc, hab'.trans hbc'⟩

theorem keyBefore_irrefl (a : PartitionKey) : keyBefore a a = false := by
  refine Bool.eq_false_iff.mpr fun h => ?_
  rcases keyBefore_iff.mp h with h | ⟨_, h⟩
  · exact String.lt_irrefl _ h
  · exact Int.lt_irrefl _ h

/-- Keys of which neither comes first are the same. -/
theorem keyBefore_connected {a b : PartitionKey} (hab : keyBefore a b = false)
    (hba : keyBefore b a = false) : a = b := by
  rw [Bool.eq_false_iff, Ne, keyBefore_iff, not_or] at hab hba
  have hfst : a.1 = b.1 := String.le_antisymm hba.1 hab.1
  have hsnd : a.2.toInt = b.2.toInt :=
    Int.le_antisymm (Int.not_lt.mp fun h => hba.2 ⟨hfst.symm, h⟩)
      (Int.not_lt.mp fun h => hab.2 ⟨hfst, h⟩)
  exact Prod.ext hfst (Int32.toInt_inj.mp hsnd)

/-- What is reported is one of the failures, and none is of a lower partition. -/
structure IsLowest (failures : List (PartitionKey × ClientError))
    (reported : PartitionKey × ClientError) : Prop where
  mem : reported ∈ failures
  lowest : ∀ failure ∈ failures, keyBefore failure.1 reported.1 = false

/-- The worst of the failures is the one of the lowest key. -/
theorem worst_isLowest {failures : List (PartitionKey × ClientError)}
    {failure : Option (PartitionKey × ClientError)} (key : PartitionKey) (e : ClientError)
    (hnone : failure = none → failures = [])
    (hsome : ∀ reported, failure = some reported → IsLowest failures reported) :
    ∃ reported, worst failure key e = some reported ∧
      IsLowest (failures ++ [(key, e)]) reported := by
  cases failure with
  | none =>
      rw [hnone rfl]
      refine ⟨(key, e), rfl, List.mem_singleton_self _, fun other hother => ?_⟩
      obtain rfl := List.mem_singleton.mp hother
      exact keyBefore_irrefl _
  | some least =>
      obtain ⟨hmem, hlowest⟩ := hsome least rfl
      by_cases hbefore : keyBefore key least.1 = true
      · refine ⟨(key, e), if_pos hbefore, List.mem_append_right _ List.mem_cons_self,
          fun other hother => ?_⟩
        rcases List.mem_append.mp hother with hother | hother
        · refine Bool.eq_false_iff.mpr fun h => ?_
          exact Bool.eq_false_iff.mp (hlowest other hother) (keyBefore_trans h hbefore)
        · obtain rfl := List.mem_singleton.mp hother
          exact keyBefore_irrefl _
      · refine ⟨least, if_neg hbefore, List.mem_append_left _ hmem, fun other hother => ?_⟩
        rcases List.mem_append.mp hother with hother | hother
        · exact hlowest other hother
        · obtain rfl := List.mem_singleton.mp hother
          exact Bool.eq_false_iff.mpr hbefore

def failuresOf : List (Parcel × Except ClientError Int64) → List (PartitionKey × ClientError)
  | [] => []
  | (_, .ok _) :: rest => failuresOf rest
  | (parcel, .error e) :: rest => (parcel.key, e) :: failuresOf rest

theorem mem_failuresOf {results : List (Parcel × Except ClientError Int64)} {e : ClientError} :
    (key, e) ∈ failuresOf results ↔
      (key, .error e) ∈ results.map fun result => (result.1.key, result.2) := by
  induction results with
  | nil => exact ⟨fun h => (by cases h), fun h => (by cases h)⟩
  | cons result rest ih =>
      obtain ⟨parcel, outcome⟩ := result
      rw [List.map_cons, List.mem_cons]
      cases outcome with
      | ok offset =>
          refine ih.trans ⟨.inr, fun h => h.resolve_left fun heq => ?_⟩
          cases heq
      | error e' =>
          refine List.mem_cons.trans (or_congr ?_ ih)
          simp only [Prod.mk.injEq, Except.error.injEq]

/-- What the loop reports is the lowest of the failures. -/
theorem failureOf_isLowest {results : List (Parcel × Except ClientError Int64)}
    (failures : List (PartitionKey × ClientError)) {failure : Option (PartitionKey × ClientError)}
    {reported : PartitionKey × ClientError} (hnone : failure = none → failures = [])
    (hsome : ∀ reported, failure = some reported → IsLowest failures reported)
    (h : failureOf failure results = some reported) :
    IsLowest (failures ++ failuresOf results) reported := by
  induction results generalizing failure failures with
  | nil =>
      rw [failuresOf, List.append_nil]
      exact hsome reported h
  | cons result rest ih =>
      obtain ⟨parcel, outcome⟩ := result
      cases outcome with
      | ok offset => exact ih failures hnone hsome h
      | error e =>
          obtain ⟨least, hworst, hleast⟩ :=
            worst_isLowest parcel.key e hnone hsome
          rw [failureOf, hworst] at h
          have hrest := ih (failures ++ [(parcel.key, e)])
            (fun heq => by cases heq) (fun other heq => by cases heq; exact hleast) h
          rw [List.append_assoc] at hrest
          exact hrest

/-- Of the outcomes of distinct partitions, the one reported decides. -/
theorem lowestFences_iff {results : List (Parcel × Except ClientError Int64)}
    {reported : PartitionKey × ClientError}
    (hnodup : (results.map fun result => result.1.key).Nodup)
    (h : failureOf none results = some reported) :
    LowestFences (results.map fun result => (result.1.key, result.2)) ↔
      isFencing reported.2 = true := by
  obtain ⟨hmem, hlowest⟩ := failureOf_isLowest [] (fun _ => rfl)
    (fun _ heq => by cases heq) h
  constructor
  · rintro ⟨key, e, hfailed, hfencing, hleast⟩
    have hkey : key = reported.1 :=
      keyBefore_connected (hlowest _ (mem_failuresOf.mpr hfailed))
        (hleast _ _ (mem_failuresOf.mp hmem))
    have hnodup' : ((results.map fun result => (result.1.key, result.2)).map (·.1)).Nodup := by
      rw [List.map_map]
      exact hnodup
    have heq := List.inj_on_of_nodup_map hnodup' hfailed (mem_failuresOf.mp hmem) hkey
    cases heq
    exact hfencing
  · intro hfencing
    refine ⟨reported.1, reported.2, mem_failuresOf.mp hmem, hfencing, fun key e hfailed => ?_⟩
    exact hlowest _ (mem_failuresOf.mpr hfailed)

end Lowest

section Fencing

theorem Claims.state_of_ok (h : Claims config okExec okDrop keys s (some (.ok ())) t) :
    t.producer.txnState = s.producer.txnState ∧
      (s.producer.txnState = .disabled ∨ s.producer.txnState = .opened) := by
  cases h with
  | unneeded hstate => exact ⟨rfl, hstate.imp_right And.left⟩
  | answered _ _ _ hopened _ _ _ _ => exact ⟨rfl, .inr hopened⟩

theorem Stamps.state {n : Nat} {out : Option (Except ClientError (Option BatchStamp))}
    (h : Stamps config okExec okDrop key n s out t) :
    t.producer.txnState = s.producer.txnState := by
  have hidentifies : ∀ {t : ProducerWorld} {out : Option (Except ClientError ProducerIdentity)},
      Identifies config okDrop s out t → t.producer.txnState = s.producer.txnState := by
    intro t out h
    cases h with
    | known _ _ | refused _ _ _ | dropped _ _ _ _ | issued _ _ _ _ _ | unissued _ _ _ _ _ => rfl
  cases h with
  | plain _ | refused _ _ _ => rfl
  | unidentified _ _ _ _ h | dropped _ _ _ h => exact hidentifies h
  | stamped _ u _ _ h _ => exact hidentifies (t := u) h

theorem StampsAll.state {batches : List (PartitionKey × PendingBatch)} {stamped : List Parcel}
    {out : Option (Except ClientError (List Parcel))}
    (h : StampsAll config okExec okDrop batches stamped s out t) :
    t.producer.txnState = s.producer.txnState := by
  induction h with
  | nil stamped s => rfl
  | cons key pending stamp hstamp _ ih => exact ih.trans hstamp.state
  | failed key pending e hstamp =>
      refine Eq.trans ?_ hstamp.state
      exact txnState_restoredAll
  | dropped key pending hstamp => exact hstamp.state

theorem txnState_settled {results : List (Parcel × Except ClientError Int64)} :
    (settled s results).producer.txnState = s.producer.txnState := by
  induction results generalizing s with
  | nil => rfl
  | cons result rest ih =>
      obtain ⟨parcel, outcome⟩ := result
      cases outcome with
      | ok _ => exact ih
      | error e =>
          refine (ih (s := handedBack s parcel)).trans ?_
          cases hstamp : parcel.stamp <;> simp only [handedBack, hstamp] <;> rfl

theorem afterFailure_opened (e : ClientError) :
    afterFailure .opened e = .fenced ↔ isFencing e = true := by
  cases hfencing : isFencing e <;> simp [afterFailure, hfencing]

theorem fences_iff {outcomes : List PartitionOutcome} :
    Fences outcomes ↔ outcomes.any isFenced = true := by
  rw [List.any_eq_true]
  constructor
  · rintro ⟨key, e, hmem, hfencing⟩
    exact ⟨(key, .error e), hmem, hfencing⟩
  · rintro ⟨⟨key, answer⟩, hmem, hfenced⟩
    cases answer with
    | ok offset => cases hfenced
    | error e => exact ⟨key, e, hmem, hfenced⟩

theorem not_fences_nil : ¬ Fences [] := by
  rintro ⟨_, _, hmem, _⟩
  cases hmem

theorem not_fences_of_landed {results : List (Parcel × Except ClientError Int64)}
    (h : failureOf none results = none) :
    ¬ Fences (results.map fun result => (result.1.key, result.2)) := by
  rintro ⟨key, e, hmem, _⟩
  obtain ⟨result, hresult, heq⟩ := List.mem_map.mp hmem
  obtain ⟨offset, hoffset⟩ := (failureOf_none h).2 result hresult
  rw [hoffset] at heq
  cases heq

theorem Delivered.since {outcomes : List PartitionOutcome} (h : Delivered outcomes s t) :
    outcomesSince s t = outcomes := by
  obtain ⟨new, hnew, rfl⟩ := h
  rw [outcomesSince, hnew, List.drop_left]

theorem drained_delivers_nothing : Delivered [] s (s.drain keys).2 :=
  .of_tells (Tells.noted (s := { s with
    producer := { s.producer with pending := ∅ }
    held := (keys.map fun key => (key, s.producer.slot key)).map fun batch =>
      (batch.1, batch.2.records) }) rfl)

/-- Where a delivery was fenced, the flush leaves the producer fenced exactly
when the lowest partition that failed was. -/
theorem flush_fences_iff (codecs : Codecs) (config : ProducerConfig) (s t : ProducerWorld)
    (r : Except ClientError (List Delivery)) (htransactional : s.producer.txnState ≠ .disabled)
    (h : (producerService codecs config).Ends (flush config).run s (some r) t)
    (hfences : Fences (outcomesSince s t)) :
    t.producer.txnState = .fenced ↔ LowestFences (outcomesSince s t) := by
  have hnothing : ∀ {outcomes}, Delivered outcomes s t → Fences outcomes := by
    intro outcomes hdelivered
    rw [← hdelivered.since]
    exact hfences
  rw [← Service.under_true (S := producerService codecs config)] at h
  cases ends_flush h with
  | empty _ => exact absurd (hnothing drained_delivers_nothing) not_fences_nil
  | unclaimed keys e u _ _ hclaims =>
      have hdelivered := drained_delivers_nothing.trans (.of_tells (NotDelivery.of_claims hclaims))
      refine absurd (hnothing (hdelivered.trans (.of_tells (.of_eq ?_)))) not_fences_nil
      exact log_restoredAll
  | unstamped keys e u _ _ _ hclaims hstamps =>
      have hdelivered := drained_delivers_nothing.trans (.of_tells
        ((NotDelivery.of_claims hclaims).trans (NotDelivery.of_stampsAll hstamps)))
      exact absurd (hnothing hdelivered) not_fences_nil
  | delivered keys stamped flights outcomes deliveries u v w _ _ hclaims hstamps _ hdeliver hnone =>
      have hsent := drained_delivers_nothing.trans (.of_tells
        ((NotDelivery.of_claims hclaims).trans (NotDelivery.of_stampsAll hstamps)))
      have hdelivered := hsent.trans (delivered_of_deliver hdeliver)
      refine absurd (hnothing (hdelivered.trans (.of_tells (.of_eq log_settled)))) ?_
      rw [List.append_nil]
      exact not_fences_of_landed hnone
  | failed keys stamped flights outcomes reported u v w hperm _ hclaims hstamps _ hdeliver
      hreported =>
      have hsent := drained_delivers_nothing.trans (.of_tells
        ((NotDelivery.of_claims hclaims).trans (NotDelivery.of_stampsAll hstamps)))
      have hdelivered := (hsent.trans (delivered_of_deliver hdeliver)).trans
        (.of_tells (t := poisoned (settled w (stamped.zip outcomes)) reported.2)
          (.of_eq log_settled))
      rw [List.append_nil] at hdelivered
      obtain ⟨hproducer, hlength, _⟩ := deliver_log hdeliver
      obtain ⟨hclaimed, hstate⟩ := hclaims.state_of_ok
      have hopened : s.producer.txnState = .opened := hstate.resolve_left htransactional
      have hsettled : (settled w (stamped.zip outcomes)).producer.txnState = .opened := by
        rw [txnState_settled, hproducer, hstamps.state, hclaimed]
        exact hopened
      have hnodup : ((stamped.zip outcomes).map fun result => result.1.key).Nodup := by
        rw [keys_zip_outcomes hstamps hlength]
        exact nodup_of_perm hperm
      rw [hdelivered.since]
      refine Iff.trans ?_ (lowestFences_iff hnodup hreported).symm
      show afterFailure (settled w (stamped.zip outcomes)).producer.txnState reported.2 = .fenced
        ↔ _
      rw [hsettled]
      exact afterFailure_opened reported.2

/-- A transaction with a record for each of two partitions. -/
def twoTopicRun : List (ProducerCall × List (Turn ProducerChoice)) :=
  beginRun ++ [(.enqueue ("a", 0) Record.minimal, [.go .go, .go .go, .go .go, .go .go]),
    (.enqueue ("b", 0) Record.minimal, [.go .go, .go .go, .go .go, .go .go])]

/-- A flush of both, refused with one code each. -/
def refusedTurns (first second : ErrorCode) : List (Turn ProducerChoice) :=
  [.go (.order [("a", 0), ("b", 0)]), .go .go, .go (.replies [.took ()]), .go .go, .go .go,
    .go .go, .go .go, .go .go, .go .go,
    .go (.flights [{ nowMs := 0, answers := [refused first] },
      { nowMs := 0, answers := [refused second] }]),
    .go .go, .go .go, .go .go, .go .go, .go .go, .go .go, .go .go, .go .go]

/-- The producer of the run, and the flush of it, where they come as `P` says. -/
theorem flush_of_run (first second : ErrorCode) (P : ProducerWorld → ProducerWorld → Bool)
    (h : (((producerService Codecs.stored (.transactional "txn")).replayAll
        (ProducerCall.body (.transactional "txn")) (fun _ => false) twoTopicRun
        (.fresh (.transactional "txn"))).bind fun s =>
      ((producerService Codecs.stored (.transactional "txn")).replay (refusedTurns first second)
        (flush (.transactional "txn")).run s).map fun out => out.1.isSome && P s out.2) =
      some true) :
    ∃ s r t, ProducerSessions (producerService Codecs.stored (.transactional "txn"))
        (.transactional "txn") (fun _ => false) s ∧
      (producerService Codecs.stored (.transactional "txn")).Ends
        (flush (.transactional "txn")).run s (some r) t ∧ P s t = true := by
  obtain ⟨s, hrun, hflush⟩ := Option.bind_eq_some_iff.mp h
  obtain ⟨⟨out, t⟩, hreplay, hout⟩ := Option.map_eq_some_iff.mp hflush
  obtain ⟨hsome, hp⟩ := Bool.and_eq_true_iff.mp hout
  obtain ⟨r, rfl⟩ := Option.isSome_iff_exists.mp hsome
  exact ⟨s, r, t, .of_replayAll (.start rfl) hrun, .of_replay hreplay, hp⟩

theorem flush_fences_lowest : ∃ s r t,
    (producerService Codecs.stored (.transactional "txn")).Ends
      (flush (.transactional "txn")).run s (some r) t ∧
    Fences (outcomesSince s t) ∧ LowestFences (outcomesSince s t) := by
  obtain ⟨s, r, t, _, hends, hp⟩ := flush_of_run .producerFenced ⟨10⟩
    (fun s t => s.producer.txnState ≠ .disabled && (t.producer.txnState = .fenced &&
      (outcomesSince s t).any isFenced)) (by decide)
  obtain ⟨htransactional, hp⟩ := Bool.and_eq_true_iff.mp hp
  obtain ⟨hfenced, hany⟩ := Bool.and_eq_true_iff.mp hp
  have hfences := fences_iff.mpr hany
  exact ⟨s, r, t, hends, hfences, (flush_fences_iff Codecs.stored (.transactional "txn") s t r
    (of_decide_eq_true htransactional) hends hfences).mp (of_decide_eq_true hfenced)⟩

/-- The lower partition is only too large, the higher one is fenced, and the
producer goes on as if it could abort. -/
theorem flush_misses_fencing : ¬ ∀ (codecs : Codecs) (config : ProducerConfig)
    (s t : ProducerWorld) (r : Except ClientError (List Delivery)),
    ProducerSessions (producerService codecs config) config (fun _ => false) s →
    s.producer.txnState ≠ .disabled →
    (producerService codecs config).Ends (flush config).run s (some r) t →
    Fences (outcomesSince s t) → t.producer.txnState = .fenced := by
  intro h
  obtain ⟨s, r, t, hsessions, hends, hp⟩ := flush_of_run ⟨10⟩ .producerFenced
    (fun s t => s.producer.txnState ≠ .disabled && (t.producer.txnState = .abortable &&
      (outcomesSince s t).any isFenced)) (by decide)
  obtain ⟨htransactional, hp⟩ := Bool.and_eq_true_iff.mp hp
  obtain ⟨habortable, hany⟩ := Bool.and_eq_true_iff.mp hp
  have hfenced := h Codecs.stored (.transactional "txn") s t r hsessions
    (of_decide_eq_true htransactional) hends (fences_iff.mpr hany)
  rw [of_decide_eq_true habortable] at hfenced
  cases hfenced

end Fencing

end Odradek.Client
