import Odradek.Acceptance.ReferenceRetention

/-!
Transaction isolation in the reference broker: what a commit publishes and
settles is exactly what was sent under its epoch since the id's last ending or
takeover, in every run whose takeovers find nothing open. A takeover clears the
announced partitions only; the open offsets and the pending ones stay, for the
successor to commit.
-/

namespace Odradek.Acceptance.Subject

open Library Odradek.Protocol

section History

/-- An ending or a takeover of a transactional id. -/
def Event.finishes (id : String) : Event → Bool
  | .claimed other _ => other = id
  | .ended other _ _ _ => other = id
  | _ => false

/-- What happened since the last ending or takeover of a transactional id. -/
def since (id : String) (history : List Event) : List Event :=
  history.foldl (fun recent event => if event.finishes id then [] else recent ++ [event]) []

def places : Int → List RecordBatch → List (Int × RecordBatch)
  | _, [] => []
  | start, batch :: batches => (start, batch) :: places (start + batchSize batch) batches

def Event.offsetsOf (id : String) : Event → List (OffsetKey × OffsetValue)
  | .held other _ key value => if other = id then [(key, value)] else []
  | _ => []

def Event.recordsOf (id : String) (key : Key) : Event → List (Int × RecordBatch)
  | .appended other transactionalId _ batches base =>
    if other = key ∧ transactionalId = some id then places base.toInt batches else []
  | _ => []

def Event.epochsOf (id : String) : Event → List Int16
  | .held other epoch _ _ => if other = id then [epoch] else []
  | .appended _ transactionalId _ batches _ =>
    if transactionalId = some id then batches.map (·.producerEpoch) else []
  | _ => []

/-- The offsets sent under an id since then. -/
def heldSince (id : String) (history : List Event) : List (OffsetKey × OffsetValue) :=
  (since id history).flatMap (Event.offsetsOf id)

def placedAt (key : Key) (history : List Event) : List (Int × RecordBatch) :=
  (appendsAt key history).flatMap fun append => places append.2.2.toInt append.2.1

/-- The batches appended to a log under an id since then. -/
def sentSince (id : String) (key : Key) (history : List Event) : List (Int × RecordBatch) :=
  (since id history).flatMap (Event.recordsOf id key)

/-- The epochs of what was sent under an id since then. -/
def epochsSince (id : String) (history : List Event) : List Int16 :=
  (since id history).flatMap (Event.epochsOf id)

/-- The records that the end of a producer's transaction settles in a log. -/
def settledIn (log : PartitionLog) (producerId : Int64) (placed : List (Int × RecordBatch)) :
    List (Int × RecordBatch) :=
  match log.opened.lookup producerId with
  | none => []
  | some first => placed.filter fun p => first.toInt ≤ p.1 && p.2.producerId = producerId

/-- A commit publishes and settles exactly what was sent under its epoch since
the id's last ending or takeover, nothing open is offered as stable, and what
is answered has been sent. -/
structure ClusterState.Isolates (s : ClusterState) : Prop where
  published : ∀ request txn,
    s.txnEpochCheck request.transactionalId request.producerEpoch = .ok txn →
      request.committed = true → ∀ key, (s.endTxnExchange request).1.committed.lookup key =
        (insertAll s.committed (heldSince request.transactionalId s.history)).lookup key
  ended : ∀ request txn,
    s.txnEpochCheck request.transactionalId request.producerEpoch = .ok txn → ∀ key,
      ((s.endTxnExchange request).1.log key).opened.lookup txn.producerId = none ∧
        ((s.endTxnExchange request).1.log key).aborted = (s.log key).aborted ++
          if request.committed then [] else
            (((s.log key).opened.lookup txn.producerId).map (txn.producerId, ·)).toList
  settled : ∀ id txn, s.txns.lookup id = some txn → ∀ key,
    settledIn (s.log key) txn.producerId (placedAt key s.history) = sentSince id key s.history
  current : ∀ id txn, s.txns.lookup id = some txn →
    ∀ epoch ∈ epochsSince id s.history, epoch = txn.epoch
  stable : ∀ id txn, s.txns.lookup id = some txn → ∀ key, ∀ sent ∈ sentSince id key s.history,
    (s.log key).lastStableOffset.toInt ≤ sent.1
  answered : ∀ key set batches base, .acknowledged key set batches base ∈ s.history →
    ∃ transactionalId base', .appended key transactionalId set batches base' ∈ s.history

end History

section Condition

/-- A set from the producer that holds its transactional id, and an id's
producer writes under the id only; a repeat is of a set in the log. -/
def Owned (snapshot : AList fun _ : String => TxnState) (transactionalId : Option String)
    (s : ClusterState) (key : Key) (set : Bytes) (batches : List RecordBatch) : Prop :=
  match leaderVerdict snapshot (s.log key) transactionalId batches with
  | .error _ => True
  | .ok (some _) => s.history.any (appendedBefore key set batches) = true
  | .ok none =>
    (∀ batch ∈ batches, 0 ≤ batch.lastOffsetDelta.toInt) ∧
      (s.log key).nextOffset.toInt + total batches < 2 ^ 63 ∧
      (∀ id ∈ transactionalId, ∀ batch ∈ batches, (s.txns.lookup id).any (fun txn =>
        txn.producerId = batch.producerId && txn.epoch = batch.producerEpoch) = true) ∧
      ∀ entry ∈ s.txns.entries, ∀ batch ∈ batches, batch.producerId = entry.2.producerId →
        transactionalId = some entry.1

instance (snapshot : AList fun _ : String => TxnState) (transactionalId : Option String)
    (s : ClusterState) (key : Key) (set : Bytes) (batches : List RecordBatch) :
    Decidable (Owned snapshot transactionalId s key set batches) :=
  match h : leaderVerdict snapshot (s.log key) transactionalId batches with
  | .error _ => isTrue (by rw [Owned, h]; trivial)
  | .ok (some _) =>
    decidable_of_iff (s.history.any (appendedBefore key set batches) = true) (by rw [Owned, h])
  | .ok none =>
    decidable_of_iff ((∀ batch ∈ batches, 0 ≤ batch.lastOffsetDelta.toInt) ∧
      (s.log key).nextOffset.toInt + total batches < 2 ^ 63 ∧
      (∀ id ∈ transactionalId, ∀ batch ∈ batches, (s.txns.lookup id).any (fun txn =>
        txn.producerId = batch.producerId && txn.epoch = batch.producerEpoch) = true) ∧
      ∀ entry ∈ s.txns.entries, ∀ batch ∈ batches, batch.producerId = entry.2.producerId →
        transactionalId = some entry.1) (by rw [Owned, h])

def Settled (s : ClusterState) (txn : TxnState) : Prop :=
  txn.pendingOffsets.entries = [] ∧
    ∀ entry ∈ s.logs.entries, entry.2.opened.lookup txn.producerId = none

/-- A takeover finds nothing open, sets are owned, and ids and offsets do not run out. -/
def OwnedStep (s : ClusterState) : Action → Prop
  | .initProducerId none => s.nextProducerId.toInt + 1 < 2 ^ 63
  | .initProducerId (some id) =>
    ((s.txns.lookup id).isNone = true → s.nextProducerId.toInt + 1 < 2 ^ 63) ∧
      ∀ txn ∈ s.txns.lookup id, Settled s txn
  | .produce nodeId request =>
    OnTopics (Owned s.txns request.transactionalId) s.txns request.transactionalId nodeId s
      request.topicData
  | action => SoundStep s action

instance (s : ClusterState) (txn : TxnState) : Decidable (Settled s txn) :=
  inferInstanceAs (Decidable (_ ∧ _))

instance (s : ClusterState) : ∀ action, Decidable (OwnedStep s action)
  | .initProducerId none => inferInstanceAs (Decidable (_ < _))
  | .initProducerId (some id) =>
    inferInstanceAs (Decidable ((_ → _) ∧ ∀ txn ∈ s.txns.lookup id, Settled s txn))
  | .produce nodeId request =>
    inferInstanceAs (Decidable (OnTopics (Owned s.txns request.transactionalId) s.txns
      request.transactionalId nodeId s request.topicData))
  | .addPartitionsToTxn request =>
    inferInstanceAs (Decidable (SoundStep s (.addPartitionsToTxn request)))
  | .addOffsetsToTxn id epoch =>
    inferInstanceAs (Decidable (SoundStep s (.addOffsetsToTxn id epoch)))
  | .txnOffsetCommit request =>
    inferInstanceAs (Decidable (SoundStep s (.txnOffsetCommit request)))
  | .endTxn request => inferInstanceAs (Decidable (SoundStep s (.endTxn request)))
  | .createTopics validateOnly topics =>
    inferInstanceAs (Decidable (SoundStep s (.createTopics validateOnly topics)))
  | .stop nodeId => inferInstanceAs (Decidable (SoundStep s (.stop nodeId)))
  | .start nodeId => inferInstanceAs (Decidable (SoundStep s (.start nodeId)))

def OwnedRun : ClusterState → Prop :=
  Reachable (fun s => ∃ ports, s = .start ports) fun s action t =>
    OwnedStep s action ∧ some (s.next action) = some t

end Condition

section Views

variable {id : String} {key : Key} {history more : List Event}

theorem since_append (hmore : ∀ event ∈ more, event.finishes id = false) :
    since id (history ++ more) = since id history ++ more := by
  unfold since
  rw [List.foldl_append]
  generalize history.foldl (fun recent event => if event.finishes id then [] else recent ++ [event])
    [] = recent
  induction more generalizing recent with
  | nil => exact (List.append_nil _).symm
  | cons event more ih =>
      rw [List.foldl_cons, hmore event List.mem_cons_self, if_neg Bool.false_ne_true,
        ih (fun other hmem => hmore other (List.mem_cons_of_mem _ hmem)), List.append_assoc,
        List.singleton_append]

theorem since_finished {event : Event} (hevent : event.finishes id = true) :
    since id (history ++ [event]) = [] := by
  unfold since
  rw [List.foldl_append, List.foldl_cons, hevent, if_pos rfl, List.foldl_nil]

@[simp] theorem placedAt_append :
    placedAt key (history ++ more) = placedAt key history ++ placedAt key more := by
  unfold placedAt
  rw [appendsAt_append, List.flatMap_append]

theorem placedAt_of_none (happends : appendsAt key more = []) : placedAt key more = [] := by
  unfold placedAt
  rw [happends]
  rfl

section Since

variable (hmore : ∀ event ∈ more, event.finishes id = false)
include hmore

theorem heldSince_append : heldSince id (history ++ more) =
    heldSince id history ++ more.flatMap (Event.offsetsOf id) := by
  unfold heldSince
  rw [since_append hmore, List.flatMap_append]

theorem sentSince_append : sentSince id key (history ++ more) =
    sentSince id key history ++ more.flatMap (Event.recordsOf id key) := by
  unfold sentSince
  rw [since_append hmore, List.flatMap_append]

theorem epochsSince_append : epochsSince id (history ++ more) =
    epochsSince id history ++ more.flatMap (Event.epochsOf id) := by
  unfold epochsSince
  rw [since_append hmore, List.flatMap_append]

end Since

/-- The offsets a set is given lie in its own range. -/
theorem places_within {batches : List RecordBatch}
    (hdeltas : ∀ batch ∈ batches, 0 ≤ batch.lastOffsetDelta.toInt) (start : Int) :
    ∀ place ∈ places start batches,
      place.2 ∈ batches ∧ start ≤ place.1 ∧ place.1 < start + total batches := by
  induction batches generalizing start with
  | nil => exact fun place hmem => (by cases hmem)
  | cons batch batches ih =>
      have hfirst := hdeltas batch List.mem_cons_self
      have hothers := fun other hmem => hdeltas other (List.mem_cons_of_mem batch hmem)
      have hrest := total_nonneg hothers
      have htotal : total (batch :: batches) = batchSize batch + total batches := rfl
      intro place hmem
      rcases List.mem_cons.mp hmem with rfl | hmem
      · simp only [batchSize] at htotal ⊢
        exact ⟨List.mem_cons_self, by omega, by omega⟩
      · obtain ⟨hin, hlow, hhigh⟩ := ih hothers _ place hmem
        simp only [batchSize] at htotal hlow hhigh
        exact ⟨List.mem_cons_of_mem _ hin, by omega, by omega⟩

end Views

section Invariant

variable {s t : ClusterState} {id : String} {txn : TxnState} {key : Key} {log : PartitionLog}
  {history more : List Event} {placed : List (Int × RecordBatch)}

/-- What is open and what is placed lies before the end of the log. -/
structure OffsetsKept (log : PartitionLog) (placed : List (Int × RecordBatch)) : Prop where
  nonneg : 0 ≤ log.nextOffset.toInt
  placed : ∀ place ∈ placed, place.1 < log.nextOffset.toInt
  opened : ∀ producerId first, log.opened.lookup producerId = some first →
    first.toInt ≤ log.nextOffset.toInt

/-- What one transactional id's coordinator and the logs know of its transaction. -/
structure TxnKept (id : String) (txn : TxnState) (logs : Key → PartitionLog)
    (history : List Event) : Prop where
  held : txn.pendingOffsets = insertAll ∅ (heldSince id history)
  sent : ∀ key, settledIn (logs key) txn.producerId (placedAt key history) =
    sentSince id key history
  current : ∀ epoch ∈ epochsSince id history, epoch = txn.epoch

/-- Producer ids of transactional ids are their own, and only they open transactions. -/
structure Separate (s : ClusterState) : Prop where
  unique : ∀ id id' txn txn', s.txns.lookup id = some txn → s.txns.lookup id' = some txn' →
    txn.producerId = txn'.producerId → id = id'
  issued : ∀ id txn, s.txns.lookup id = some txn →
    0 ≤ txn.producerId.toInt ∧ txn.producerId.toInt ≤ s.nextProducerId.toInt
  nonneg : 0 ≤ s.nextProducerId.toInt
  opened : ∀ key producerId, ((s.log key).opened.lookup producerId).isSome = true →
    ∃ id txn, s.txns.lookup id = some txn ∧ txn.producerId = producerId
  offsets : ∀ key, OffsetsKept (s.log key) (placedAt key s.history)
  txns : ∀ id txn, s.txns.lookup id = some txn → TxnKept id txn s.log s.history

theorem Separate.start (ports : List Int32) : Separate (.start ports) where
  unique := fun _ _ _ _ h => (by cases h)
  issued := fun _ _ h => (by cases h)
  nonneg := Int.le_refl 0
  opened := fun _ _ h => (by cases h)
  offsets := fun _ => ⟨Int.le_refl 0, fun _ h => (by cases h), fun _ _ h => (by cases h)⟩
  txns := fun _ _ h => (by cases h)

theorem settledIn_append (placed more : List (Int × RecordBatch)) (producerId : Int64) :
    settledIn log producerId (placed ++ more) =
      settledIn log producerId placed ++ settledIn log producerId more := by
  unfold settledIn
  cases log.opened.lookup producerId with
  | none => rfl
  | some first => exact List.filter_append _ _

/-- An event that is nothing of a transactional id's. -/
def Event.foreign (id : String) (event : Event) : Prop :=
  event.finishes id = false ∧ event.offsetsOf id = [] ∧
    (∀ key, event.recordsOf id key = []) ∧ event.epochsOf id = []

/-- Events of others, over logs where the id's transaction is as it was. -/
theorem TxnKept.others (hkept : TxnKept id txn s.log s.history)
    (hopened : ∀ key, (t.log key).opened.lookup txn.producerId =
      (s.log key).opened.lookup txn.producerId)
    (hhistory : t.history = s.history ++ more) (hmore : ∀ event ∈ more, event.foreign id)
    (hplaced : ∀ key, settledIn (s.log key) txn.producerId (placedAt key more) = []) :
    TxnKept id txn t.log t.history := by
  have hsettled : ∀ key placed, settledIn (t.log key) txn.producerId placed =
      settledIn (s.log key) txn.producerId placed := by
    intro key placed
    unfold settledIn
    rw [hopened]
  have hopen : ∀ event ∈ more, event.finishes id = false := fun event hmem => (hmore event hmem).1
  rw [hhistory]
  refine ⟨?_, fun key => ?_, ?_⟩
  · rw [heldSince_append hopen,
      List.flatMap_eq_nil_iff.mpr fun event hmem => (hmore event hmem).2.1, List.append_nil]
    exact hkept.held
  · rw [sentSince_append hopen,
      List.flatMap_eq_nil_iff.mpr fun event hmem => (hmore event hmem).2.2.1 key, List.append_nil,
      placedAt_append, settledIn_append, hsettled, hsettled, hplaced, List.append_nil]
    exact hkept.sent key
  · rw [epochsSince_append hopen,
      List.flatMap_eq_nil_iff.mpr fun event hmem => (hmore event hmem).2.2.2, List.append_nil]
    exact hkept.current

end Invariant

section Appends

variable {log : PartitionLog} {placed : List (Int × RecordBatch)} {producerId : Int64} {set : Bytes}
  {batches : List RecordBatch}

theorem append_opened_ne (transactional : Bool)
    (hforeign : ∀ batch ∈ batches, batch.producerId ≠ producerId) :
    (log.append transactional set batches).opened.lookup producerId =
      log.opened.lookup producerId := by
  unfold PartitionLog.append
  simp only
  split
  next h =>
      cases batches with
      | nil => exact absurd h.2.1 (by decide)
      | cons first rest =>
          exact AList.lookup_insert_ne (hforeign first List.mem_cons_self).symm
  next => rfl

theorem append_opened_own {first : RecordBatch} (hpos : 0 ≤ first.producerId.toInt)
    (rest : List RecordBatch) :
    (log.append true set (first :: rest)).opened.lookup first.producerId =
      (log.opened.lookup first.producerId).or (some log.nextOffset) := by
  unfold PartitionLog.append
  simp only [List.head?_cons, Option.map_some, Option.getD_some]
  cases hopen : log.opened.lookup first.producerId with
  | none =>
      rw [if_pos ⟨trivial, Int64.le_iff_toInt_le.mpr hpos, rfl⟩, AList.lookup_insert]
      rfl
  | some offset =>
      rw [if_neg (fun h => (by simp at h)), hopen]
      rfl

/-- What a transaction's own producer appends is settled with it. -/
theorem settledIn_own (hkept : OffsetsKept log placed)
    (hdeltas : ∀ batch ∈ batches, 0 ≤ batch.lastOffsetDelta.toInt)
    (hown : ∀ batch ∈ batches, batch.producerId = producerId) (hpos : 0 ≤ producerId.toInt) :
    settledIn (log.append true set batches) producerId
        (placed ++ places log.nextOffset.toInt batches) =
      settledIn log producerId placed ++ places log.nextOffset.toInt batches := by
  cases batches with
  | nil =>
      unfold settledIn
      rw [append_opened_ne true (fun _ hmem => (by cases hmem)), places, List.append_nil,
        List.append_nil]
  | cons first rest =>
      have hfirst := hown first List.mem_cons_self
      have hopened := @append_opened_own log set first (hfirst ▸ hpos) rest
      rw [hfirst] at hopened
      have hwithin := places_within hdeltas log.nextOffset.toInt
      unfold settledIn
      rw [hopened]
      cases hopen : log.opened.lookup producerId with
      | none =>
          simp only [Option.none_or, List.filter_append]
          rw [List.filter_eq_nil_iff.mpr, List.filter_eq_self.mpr]
          · intro place hmem
            obtain ⟨hin, hlow, _⟩ := hwithin place hmem
            simp only [hown _ hin, decide_true, Bool.and_true, decide_eq_true_eq]
            exact hlow
          · intro place hmem
            have hbelow := hkept.placed place hmem
            simp only [Bool.and_eq_true, decide_eq_true_eq, not_and]
            omega
      | some offset =>
          have hoffset := hkept.opened producerId offset hopen
          simp only [Option.some_or, List.filter_append]
          congr 1
          rw [List.filter_eq_self.mpr]
          intro place hmem
          obtain ⟨hin, hlow, _⟩ := hwithin place hmem
          simp only [hown _ hin, decide_true, Bool.and_true, decide_eq_true_eq]
          omega

theorem settledIn_foreign {start : Int}
    (hdeltas : ∀ batch ∈ batches, 0 ≤ batch.lastOffsetDelta.toInt)
    (hforeign : ∀ batch ∈ batches, batch.producerId ≠ producerId) :
    settledIn log producerId (places start batches) = [] := by
  unfold settledIn
  cases log.opened.lookup producerId with
  | none => rfl
  | some first =>
      rw [List.filter_eq_nil_iff]
      intro place hmem
      obtain ⟨hin, _⟩ := places_within hdeltas start place hmem
      simp [hforeign _ hin]

/-- An append keeps what is open, and what was placed before. -/
theorem OffsetsKept.append (hkept : OffsetsKept log placed) (transactional : Bool)
    (hdeltas : ∀ batch ∈ batches, 0 ≤ batch.lastOffsetDelta.toInt)
    (hfits : log.nextOffset.toInt + total batches < 2 ^ 63) :
    OffsetsKept (log.append transactional set batches)
      (placed ++ places log.nextOffset.toInt batches) := by
  have htotal := total_nonneg hdeltas
  have hnonneg := hkept.nonneg
  have hcount := appendedCount_toInt hdeltas (by omega)
  have hnext : (log.append transactional set batches).nextOffset.toInt =
      log.nextOffset.toInt + total batches := by
    show (log.nextOffset + appendedCount batches).toInt = _
    rw [toInt_add_of_lt hnonneg (by omega) (by omega), hcount]
  refine ⟨by omega, fun place hmem => ?_, fun producerId first hopen => ?_⟩
  · rcases List.mem_append.mp hmem with hold | hnew
    · have hbelow := hkept.placed place hold
      omega
    · have hwithin := places_within hdeltas _ place hnew
      omega
  · unfold PartitionLog.append at hopen
    simp only at hopen
    split at hopen
    next =>
        rcases lookup_insert_cases hopen with ⟨_, rfl⟩ | ⟨_, hold⟩
        · omega
        · have hbelow := hkept.opened producerId first hold
          omega
    next =>
        have hbelow := hkept.opened producerId first hopen
        omega

end Appends

section Produces

variable {s t : ClusterState} {key : Key} {set : Bytes} {batches : List RecordBatch}

/-- A step that leaves producers and open transactions alone, with no append. -/
theorem Separate.beside (hkept : Separate s) {more : List Event} (htxns : t.txns = s.txns)
    (hnext : t.nextProducerId = s.nextProducerId) (hlogs : ∀ key, t.log key = s.log key)
    (hhistory : t.history = s.history ++ more)
    (hmore : ∀ event ∈ more, ∀ id, event.foreign id) (hquiet : ∀ key, placedAt key more = []) :
    Separate t where
  unique := by
    rw [htxns]
    exact hkept.unique
  issued := by
    rw [htxns, hnext]
    exact hkept.issued
  nonneg := by
    rw [hnext]
    exact hkept.nonneg
  opened := by
    intro key producerId
    rw [hlogs, htxns]
    exact hkept.opened key producerId
  offsets := by
    intro key
    rw [hlogs, hhistory, placedAt_append, hquiet, List.append_nil]
    exact hkept.offsets key
  txns := by
    intro id txn htxn
    rw [htxns] at htxn
    refine (hkept.txns id txn htxn).others (fun key => by rw [hlogs]) hhistory
      (fun event hmem => hmore event hmem id) fun key => ?_
    rw [hquiet]
    unfold settledIn
    cases (s.log key).opened.lookup txn.producerId with
    | none => rfl
    | some first => rfl

theorem Separate.touch (hkept : Separate s) (key : Key) :
    Separate { s with logs := s.logs.insert key (s.log key) } := by
  refine hkept.beside rfl rfl (fun other => ?_) (List.append_nil _).symm
    (fun _ hmem => absurd hmem List.not_mem_nil) (fun _ => rfl)
  rw [@log_insert s _ key _ rfl]
  split
  next hkey => rw [hkey]
  next => rfl

theorem foreign_acknowledged {base : Int64} (id : String) :
    (Event.acknowledged key set batches base).foreign id :=
  ⟨rfl, rfl, fun _ => rfl, rfl⟩

theorem Separate.recognize (hkept : Separate s) {base : Int64} :
    Separate { s with history := s.history ++ [.acknowledged key set batches base] } := by
  refine hkept.beside rfl rfl (fun _ => rfl) rfl (fun event hmem id => ?_) (fun _ => rfl)
  rw [List.mem_singleton.mp hmem]
  exact foreign_acknowledged id

/-- A transactional id's own append joins its transaction. -/
theorem TxnKept.own {id : String} {txn : TxnState} (hkept : TxnKept id txn s.log s.history)
    (hlogs : ∀ other, t.log other = if other = key then (s.log key).append true set batches
      else s.log other)
    (hhistory : t.history = s.history ++ [.appended key (some id) set batches
      (s.log key).nextOffset, .acknowledged key set batches (s.log key).nextOffset])
    (hoffsets : OffsetsKept (s.log key) (placedAt key s.history))
    (hdeltas : ∀ batch ∈ batches, 0 ≤ batch.lastOffsetDelta.toInt)
    (hown : ∀ batch ∈ batches, batch.producerId = txn.producerId ∧ batch.producerEpoch = txn.epoch)
    (hpos : 0 ≤ txn.producerId.toInt) : TxnKept id txn t.log t.history := by
  have hopen : ∀ event ∈ [Event.appended key (some id) set batches (s.log key).nextOffset,
      .acknowledged key set batches (s.log key).nextOffset], event.finishes id = false := by
    intro event hmem
    rcases List.mem_pair.mp hmem with rfl | rfl
    · rfl
    · rfl
  rw [hhistory]
  refine ⟨?_, fun other => ?_, ?_⟩
  · rw [heldSince_append hopen]
    exact hkept.held.trans (by simp [Event.offsetsOf])
  · rw [sentSince_append hopen, placedAt_append, hlogs]
    by_cases hkey : other = key
    · rw [if_pos hkey, hkey]
      have hplaced : placedAt key [.appended key (some id) set batches (s.log key).nextOffset,
          .acknowledged key set batches (s.log key).nextOffset] =
          places (s.log key).nextOffset.toInt batches := by
        simp [placedAt, appendsAt]
      rw [hplaced, settledIn_own hoffsets hdeltas (fun batch hmem => (hown batch hmem).1) hpos,
        hkept.sent key]
      simp [Event.recordsOf]
    · rw [if_neg hkey]
      have hplaced : placedAt other [.appended key (some id) set batches (s.log key).nextOffset,
          .acknowledged key set batches (s.log key).nextOffset] = [] := by
        simp [placedAt, appendsAt, Ne.symm hkey]
      rw [hplaced, List.append_nil, hkept.sent other]
      simp [Event.recordsOf, Ne.symm hkey]
  · rw [epochsSince_append hopen]
    intro epoch hmem
    rcases List.mem_append.mp hmem with hold | hnew
    · exact hkept.current epoch hold
    · have hin : epoch ∈ batches.map (·.producerEpoch) := by
        simpa [Event.epochsOf] using hnew
      obtain ⟨batch, hbatch, rfl⟩ := List.mem_map.mp hin
      exact (hown batch hbatch).2

/-- Another's append. -/
theorem TxnKept.stranger {id : String} {txn : TxnState} {transactionalId : Option String}
    {transactional : Bool} (hkept : TxnKept id txn s.log s.history)
    (hlogs : ∀ other, t.log other = if other = key then
      (s.log key).append transactional set batches else s.log other)
    (hhistory : t.history = s.history ++ [.appended key transactionalId set batches
      (s.log key).nextOffset, .acknowledged key set batches (s.log key).nextOffset])
    (hdeltas : ∀ batch ∈ batches, 0 ≤ batch.lastOffsetDelta.toInt)
    (hid : transactionalId ≠ some id)
    (hforeign : ∀ batch ∈ batches, batch.producerId ≠ txn.producerId) :
    TxnKept id txn t.log t.history := by
  refine hkept.others (fun other => ?_) hhistory (fun event hmem => ?_) fun other => ?_
  · rw [hlogs]
    split
    next hkey => rw [append_opened_ne transactional hforeign, hkey]
    next => rfl
  · rcases List.mem_pair.mp hmem with rfl | rfl
    · refine ⟨rfl, rfl, fun other => ?_, ?_⟩
      · exact if_neg fun h => hid h.2
      · exact if_neg hid
    · exact foreign_acknowledged id
  · by_cases hkey : key = other
    · have hplaced : placedAt other [.appended key transactionalId set batches
          (s.log key).nextOffset, .acknowledged key set batches (s.log key).nextOffset] =
          places (s.log key).nextOffset.toInt batches := by
        simp [placedAt, appendsAt, hkey]
      rw [hplaced]
      exact settledIn_foreign hdeltas hforeign
    · have hplaced : placedAt other [.appended key transactionalId set batches
          (s.log key).nextOffset, .acknowledged key set batches (s.log key).nextOffset] = [] := by
        simp [placedAt, appendsAt, hkey]
      rw [hplaced]
      exact @settledIn_foreign _ _ [] 0 (fun _ hmem => absurd hmem List.not_mem_nil)
        (fun _ hmem => absurd hmem List.not_mem_nil)

/-- An owned set at the end of its log. -/
theorem Separate.append (hkept : Separate s) {transactionalId : Option String}
    (hlogs : ∀ other, t.log other = if other = key then
      (s.log key).append transactionalId.isSome set batches else s.log other)
    (htxns : t.txns = s.txns) (hnext : t.nextProducerId = s.nextProducerId)
    (hhistory : t.history = s.history ++ [.appended key transactionalId set batches
      (s.log key).nextOffset, .acknowledged key set batches (s.log key).nextOffset])
    (hdeltas : ∀ batch ∈ batches, 0 ≤ batch.lastOffsetDelta.toInt)
    (hfits : (s.log key).nextOffset.toInt + total batches < 2 ^ 63)
    (hown : ∀ id ∈ transactionalId, ∀ batch ∈ batches, (s.txns.lookup id).any (fun txn =>
      txn.producerId = batch.producerId && txn.epoch = batch.producerEpoch) = true)
    (hnobody : ∀ entry ∈ s.txns.entries, ∀ batch ∈ batches,
      batch.producerId = entry.2.producerId → transactionalId = some entry.1) : Separate t where
  unique := by
    rw [htxns]
    exact hkept.unique
  issued := by
    rw [htxns, hnext]
    exact hkept.issued
  nonneg := by
    rw [hnext]
    exact hkept.nonneg
  opened := by
    intro other producerId
    rw [hlogs, htxns]
    split
    next hkey =>
        intro hopen
        by_cases hmine : ∀ batch ∈ batches, batch.producerId ≠ producerId
        · rw [append_opened_ne _ hmine] at hopen
          exact hkept.opened key producerId hopen
        · obtain ⟨batch, hbatch⟩ := not_forall.mp hmine
          obtain ⟨hin, hid⟩ := Classical.not_imp.mp hbatch
          cases transactionalId with
          | none =>
              refine hkept.opened key producerId ?_
              have hsame : ((s.log key).append false set batches).opened = (s.log key).opened := by
                simp [PartitionLog.append]
              rwa [Option.isSome_none, hsame] at hopen
          | some id =>
              obtain ⟨txn, htxn, hmatch⟩ := (Option.any_eq_true _ _).mp (hown id rfl batch hin)
              simp only [Bool.and_eq_true, decide_eq_true_eq] at hmatch
              exact ⟨id, txn, htxn, hmatch.1.trans (not_not.mp hid)⟩
    next => exact hkept.opened other producerId
  offsets := by
    intro other
    rw [hlogs, hhistory, placedAt_append]
    by_cases hkey : other = key
    · rw [if_pos hkey, hkey]
      have hplaced : placedAt key [.appended key transactionalId set batches
          (s.log key).nextOffset, .acknowledged key set batches (s.log key).nextOffset] =
          places (s.log key).nextOffset.toInt batches := by
        simp [placedAt, appendsAt]
      rw [hplaced]
      exact (hkept.offsets key).append _ hdeltas hfits
    · rw [if_neg hkey]
      have hplaced : placedAt other [.appended key transactionalId set batches
          (s.log key).nextOffset, .acknowledged key set batches (s.log key).nextOffset] = [] := by
        simp [placedAt, appendsAt, Ne.symm hkey]
      rw [hplaced, List.append_nil]
      exact hkept.offsets other
  txns := by
    intro id txn htxn
    rw [htxns] at htxn
    have hold := hkept.txns id txn htxn
    by_cases hid : transactionalId = some id
    · subst hid
      refine hold.own hlogs hhistory (hkept.offsets key) hdeltas (fun batch hmem => ?_)
        (hkept.issued id txn htxn).1
      obtain ⟨found, hfound, hmatch⟩ := (Option.any_eq_true _ _).mp (hown id rfl batch hmem)
      simp only [Bool.and_eq_true, decide_eq_true_eq] at hmatch
      obtain rfl : txn = found := Option.some.inj (htxn.symm.trans hfound)
      exact ⟨hmatch.1.symm, hmatch.2.symm⟩
    · exact hold.stranger hlogs hhistory hdeltas hid fun batch hmem heq =>
        hid (hnobody ⟨id, txn⟩ (lookup_eq_some_iff.mp htxn) batch hmem heq)

/-- A set of its owner keeps the transactions apart. -/
theorem Separate.produceSet (hkept : Separate s) {snapshot : AList fun _ : String => TxnState}
    {transactionalId : Option String} (howned : Owned snapshot transactionalId s key set batches) :
    Separate (s.produceSet snapshot transactionalId key set batches).1 := by
  unfold Owned at howned
  cases hleader : leaderVerdict snapshot (s.log key) transactionalId batches with
  | error code =>
      rw [produceSet_refused hleader]
      exact hkept.touch key
  | ok known =>
      rw [hleader] at howned
      cases known with
      | some known =>
          rw [produceSet_recognized hleader]
          exact (hkept.touch key).recognize
      | none =>
          rw [produceSet_appended hleader]
          obtain ⟨hdeltas, hfits, hown, hnobody⟩ := howned
          refine hkept.append (fun other => ?_) rfl rfl rfl hdeltas hfits hown hnobody
          rw [@log_insert { s with logs := s.logs.insert key (s.log key) } _ key _ rfl]
          split
          next => rfl
          next hkey => rw [@log_insert s _ key _ rfl, if_neg hkey]

end Produces

section Transactions

variable {s : ClusterState}

theorem check_ok {id : String} {epoch : Int16} {txn : TxnState}
    (h : s.txnEpochCheck id epoch = .ok txn) : s.txns.lookup id = some txn ∧ epoch = txn.epoch := by
  unfold ClusterState.txnEpochCheck at h
  split at h
  next => cases h
  next found hfound =>
      split at h
      next hepoch =>
          obtain rfl := Except.ok.inj h
          exact ⟨hfound, hepoch⟩
      next => cases h

/-- A transactional id's state changes, its producer stays. -/
theorem Separate.renew (hkept : Separate s) {t : ClusterState} {id : String} {txn txn' : TxnState}
    {more : List Event} (hid : s.txns.lookup id = some txn)
    (htxns : t.txns = s.txns.insert id txn') (hproducer : txn'.producerId = txn.producerId)
    (hnext : t.nextProducerId = s.nextProducerId)
    (hopened : ∀ key producerId first, (t.log key).opened.lookup producerId = some first →
      (s.log key).opened.lookup producerId = some first)
    (hother : ∀ key producerId, producerId ≠ txn.producerId →
      (t.log key).opened.lookup producerId = (s.log key).opened.lookup producerId)
    (hoffset : ∀ key, (s.log key).nextOffset.toInt ≤ (t.log key).nextOffset.toInt)
    (hhistory : t.history = s.history ++ more)
    (hmore : ∀ event ∈ more, ∀ other, other ≠ id → event.foreign other)
    (hquiet : ∀ key, placedAt key more = [])
    (hmine : TxnKept id txn' t.log t.history) : Separate t where
  unique := by
    intro id₁ id₂ txn₁ txn₂ h₁ h₂ heq
    rw [htxns] at h₁ h₂
    rcases lookup_insert_cases h₁ with ⟨hid₁, htxn₁⟩ | ⟨_, hold₁⟩
    · rcases lookup_insert_cases h₂ with ⟨hid₂, _⟩ | ⟨_, hold₂⟩
      · exact hid₁.trans hid₂.symm
      · rw [htxn₁] at heq
        exact hid₁.trans (hkept.unique _ _ _ _ hid hold₂ (hproducer.symm.trans heq))
    · rcases lookup_insert_cases h₂ with ⟨hid₂, htxn₂⟩ | ⟨_, hold₂⟩
      · rw [htxn₂] at heq
        exact (hkept.unique _ _ _ _ hold₁ hid (heq.trans hproducer)).trans hid₂.symm
      · exact hkept.unique _ _ _ _ hold₁ hold₂ heq
  issued := by
    intro id₁ txn₁ h₁
    rw [htxns] at h₁
    rw [hnext]
    rcases lookup_insert_cases h₁ with ⟨rfl, rfl⟩ | ⟨_, h₁⟩
    · rw [hproducer]
      exact hkept.issued _ _ hid
    · exact hkept.issued _ _ h₁
  nonneg := by
    rw [hnext]
    exact hkept.nonneg
  opened := by
    intro key producerId hopen
    obtain ⟨first, hfirst⟩ := Option.isSome_iff_exists.mp hopen
    obtain ⟨owner, txn₁, hlookup, hsame⟩ :=
      hkept.opened key producerId (by rw [hopened key producerId first hfirst]; rfl)
    rw [htxns]
    by_cases howner : owner = id
    · subst howner
      obtain rfl : txn = txn₁ := Option.some.inj (hid.symm.trans hlookup)
      exact ⟨owner, txn', AList.lookup_insert _, hproducer.trans hsame⟩
    · exact ⟨owner, txn₁, (AList.lookup_insert_ne howner).trans hlookup, hsame⟩
  offsets := by
    intro key
    have hold := hkept.offsets key
    have hgrown := hoffset key
    rw [hhistory, placedAt_append, hquiet, List.append_nil]
    refine ⟨Int.le_trans hold.nonneg hgrown, fun place hmem => ?_, fun producerId first hopen => ?_⟩
    · exact Int.lt_of_lt_of_le (hold.placed place hmem) hgrown
    · exact Int.le_trans (hold.opened producerId first (hopened key producerId first hopen)) hgrown
  txns := by
    intro id₁ txn₁ h₁
    rw [htxns] at h₁
    rcases lookup_insert_cases h₁ with ⟨rfl, rfl⟩ | ⟨hne, h₁⟩
    · exact hmine
    · refine (hkept.txns _ _ h₁).others (fun key => hother key _ fun heq => ?_) hhistory
        (fun event hmem => hmore event hmem _ hne) fun key => ?_
      · exact hne (hkept.unique _ _ _ _ h₁ hid heq)
      · rw [hquiet]
        unfold settledIn
        cases (s.log key).opened.lookup txn₁.producerId with
        | none => rfl
        | some first => rfl

/-- A claim of an id that has nothing open. -/
theorem TxnKept.fresh {id : String} {txn : TxnState} {logs : Key → PartitionLog}
    {history : List Event} {event : Event} (hpending : txn.pendingOffsets = ∅)
    (hclosed : ∀ key, (logs key).opened.lookup txn.producerId = none)
    (hevent : event.finishes id = true) : TxnKept id txn logs (history ++ [event]) where
  held := by
    unfold heldSince
    rw [since_finished hevent]
    exact hpending
  sent := by
    intro key
    unfold settledIn sentSince
    rw [since_finished hevent, hclosed]
    rfl
  current := by
    unfold epochsSince
    rw [since_finished hevent]
    exact fun _ hmem => (by cases hmem)

theorem lookup_finish_ne {log : PartitionLog} {producerId other : Int64} {committed : Bool}
    (hne : other ≠ producerId) :
    (log.finish producerId committed).opened.lookup other = log.opened.lookup other := by
  unfold PartitionLog.finish
  cases log.opened.lookup producerId with
  | none => rfl
  | some first => exact AList.lookup_erase_ne hne

theorem lookup_finish_self (log : PartitionLog) (producerId : Int64) (committed : Bool) :
    (log.finish producerId committed).opened.lookup producerId = none := by
  unfold PartitionLog.finish
  cases hopen : log.opened.lookup producerId with
  | none => exact hopen
  | some first => exact AList.lookup_erase _ _

theorem nextOffset_finish {log : PartitionLog} {placed : List (Int × RecordBatch)}
    {producerId : Int64} {committed : Bool} (hkept : OffsetsKept log placed)
    (hfits : (log.opened.lookup producerId).isSome = true → log.nextOffset.toInt + 1 < 2 ^ 63) :
    log.nextOffset.toInt ≤ (log.finish producerId committed).nextOffset.toInt := by
  unfold PartitionLog.finish
  cases hopen : log.opened.lookup producerId with
  | none => exact Int.le_refl _
  | some first =>
      rw [hopen] at hfits
      have hnext : (log.nextOffset + 1).toInt = log.nextOffset.toInt + 1 :=
        toInt_add_of_lt hkept.nonneg (by decide) (hfits rfl)
      simp only
      omega

theorem SoundStep.fits {request : EndTxnRequest} {txn : TxnState} {key : Key}
    (hsound : SoundStep s (.endTxn request))
    (hcheck : s.txnEpochCheck request.transactionalId request.producerEpoch = .ok txn)
    (hopen : ((s.log key).opened.lookup txn.producerId).isSome = true) :
    (s.log key).nextOffset.toInt + 1 < 2 ^ 63 := by
  unfold ClusterState.log at hopen ⊢
  cases hlookup : s.logs.lookup key with
  | none =>
      rw [hlookup] at hopen
      cases hopen
  | some log =>
      rw [hlookup] at hopen
      exact hsound txn (by rw [hcheck]; rfl) ⟨key, log⟩ (lookup_eq_some_iff.mp hlookup) hopen

/-- The end of a transaction keeps the others as they are. -/
theorem Separate.endTxn (hkept : Separate s) {request : EndTxnRequest}
    (hsound : SoundStep s (.endTxn request)) : Separate (s.endTxnExchange request).1 := by
  cases hcheck : s.txnEpochCheck request.transactionalId request.producerEpoch with
  | error code =>
      unfold ClusterState.endTxnExchange
      rw [hcheck]
      exact hkept
  | ok txn =>
      obtain ⟨hid, _⟩ := check_ok hcheck
      have hfields : (s.endTxnExchange request).1.txns =
          s.txns.insert request.transactionalId { txn with partitions := [], pendingOffsets := ∅ } ∧
          (s.endTxnExchange request).1.nextProducerId = s.nextProducerId ∧
          (s.endTxnExchange request).1.history = s.history ++
            [.ended request.transactionalId request.producerEpoch request.committed
              (s.touched txn.producerId)] := by
        unfold ClusterState.endTxnExchange
        rw [hcheck]
        exact ⟨rfl, rfl, rfl⟩
      obtain ⟨htxns, hnext, hhistory⟩ := hfields
      have hlog : ∀ key, (s.endTxnExchange request).1.log key =
          (s.log key).finish txn.producerId request.committed := fun key => endTxn_log hcheck
      refine hkept.renew hid htxns rfl hnext (fun key producerId first hopen => ?_)
        (fun key producerId hne => ?_) (fun key => ?_) hhistory (fun event hmem other hne => ?_)
        (fun key => rfl) ?_
      · rw [hlog] at hopen
        by_cases hproducer : producerId = txn.producerId
        · rw [hproducer, lookup_finish_self] at hopen
          cases hopen
        · rwa [lookup_finish_ne hproducer] at hopen
      · rw [hlog, lookup_finish_ne hne]
      · rw [hlog]
        exact nextOffset_finish (hkept.offsets key) (hsound.fits hcheck)
      · rw [List.mem_singleton.mp hmem]
        exact ⟨decide_eq_false hne.symm, rfl, fun _ => rfl, rfl⟩
      · rw [hhistory]
        exact .fresh rfl (fun key => by rw [hlog, lookup_finish_self]) (decide_eq_true rfl)

theorem Separate.announce (hkept : Separate s) (request : AddPartitionsToTxnRequest) :
    Separate (s.addPartitionsToTxnExchange request).1 := by
  cases hcheck : s.txnEpochCheck request.transactionalId request.producerEpoch with
  | error code =>
      rw [addPartitionsToTxn_refused hcheck]
      exact hkept
  | ok txn =>
      obtain ⟨hid, _⟩ := check_ok hcheck
      obtain ⟨partitions, heq⟩ := addPartitionsToTxn_announced hcheck
      have hold := hkept.txns _ _ hid
      rw [heq]
      exact hkept.renew hid rfl rfl rfl (fun _ _ _ hopen => hopen) (fun _ _ _ => rfl)
        (fun _ => Int.le_refl _) (List.append_nil _).symm
        (fun _ hmem => absurd hmem List.not_mem_nil) (fun _ => rfl)
        ⟨hold.held, hold.sent, hold.current⟩

theorem Separate.hold (hkept : Separate s) (request : TxnOffsetCommitRequest) :
    Separate (s.txnOffsetCommitExchange request).1 := by
  cases hcheck : s.txnEpochCheck request.transactionalId request.producerEpoch with
  | error code =>
      rw [txnOffsetCommit_refused hcheck]
      exact hkept
  | ok txn =>
      obtain ⟨hid, hepoch⟩ := check_ok hcheck
      have hold := hkept.txns _ _ hid
      have hopen : ∀ event ∈ request.offsets.map (fun offset =>
          Event.held request.transactionalId request.producerEpoch offset.1 offset.2),
          event.finishes request.transactionalId = false := by
        intro event hmem
        obtain ⟨offset, _, rfl⟩ := List.mem_map.mp hmem
        rfl
      have hquiet : ∀ key, placedAt key (request.offsets.map fun offset =>
          Event.held request.transactionalId request.producerEpoch offset.1 offset.2) = [] := by
        intro key
        refine placedAt_of_none (appendsAt_quiet fun event hmem => ?_)
        obtain ⟨offset, _, rfl⟩ := List.mem_map.mp hmem
        trivial
      rw [txnOffsetCommit_held hcheck]
      refine hkept.renew hid rfl rfl rfl (fun _ _ _ hopen => hopen) (fun _ _ _ => rfl)
        (fun _ => Int.le_refl _) rfl (fun event hmem other hne => ?_) hquiet ⟨?_, fun key => ?_, ?_⟩
      · obtain ⟨offset, _, rfl⟩ := List.mem_map.mp hmem
        exact ⟨rfl, if_neg hne.symm, fun _ => rfl, if_neg hne.symm⟩
      · have hoffsets : (request.offsets.map fun offset =>
            Event.held request.transactionalId request.producerEpoch offset.1 offset.2).flatMap
              (Event.offsetsOf request.transactionalId) = request.offsets := by
          rw [List.flatMap_map]
          simp [Event.offsetsOf]
        rw [heldSince_append hopen, hoffsets]
        simp only [insertAll, List.foldl_append]
        rw [hold.held]
        rfl
      · rw [sentSince_append hopen, List.flatMap_eq_nil_iff.mpr, List.append_nil, placedAt_append,
          hquiet, List.append_nil]
        · exact hold.sent key
        · intro event hmem
          obtain ⟨offset, _, rfl⟩ := List.mem_map.mp hmem
          rfl
      · rw [epochsSince_append hopen]
        intro epoch hmem
        rcases List.mem_append.mp hmem with hin | hin
        · exact hold.current epoch hin
        · obtain ⟨event, hevent, hsent⟩ := List.mem_flatMap.mp hin
          obtain ⟨offset, _, rfl⟩ := List.mem_map.mp hevent
          simp only [Event.epochsOf, if_true, List.mem_singleton] at hsent
          exact hsent.trans hepoch

theorem toInt_succ {id : Int64} (hfits : id.toInt + 1 < 2 ^ 63) (hnonneg : 0 ≤ id.toInt) :
    (id + 1).toInt = id.toInt + 1 :=
  toInt_add_of_lt hnonneg (by decide) hfits

/-- The next id is nobody's, also where it wraps. -/
theorem ne_next {producerId next : Int64} (hpos : 0 ≤ producerId.toInt)
    (hle : producerId.toInt ≤ next.toInt) : producerId ≠ next + 1 := by
  intro heq
  have hmax := next.toInt_lt
  by_cases hfits : next.toInt + 1 < 2 ^ 63
  · have hsucc := toInt_succ hfits (Int.le_trans hpos hle)
    rw [heq, hsucc] at hle
    omega
  · have hlast : next.toInt = 2 ^ 63 - 1 := by omega
    have hwrap : (next + 1).toInt = -2 ^ 63 := by
      rw [Int64.toInt_add, hlast]
      rfl
    rw [heq, hwrap] at hpos
    omega

theorem initProducerId_known {id : String} {txn : TxnState} (hid : s.txns.lookup id = some txn) :
    (s.initProducerIdExchange (some id)).1 =
      { s with
        nextProducerId :=
          if txn.producerId = s.nextProducerId + 1 then s.nextProducerId + 1 else s.nextProducerId
        txns := s.txns.insert id { txn with epoch := txn.epoch + 1, partitions := [] }
        history := s.history ++ [.claimed id (txn.epoch + 1)] } := by
  simp only [ClusterState.initProducerIdExchange, hid, Option.getD_some]

theorem initProducerId_new {id : String} (hid : s.txns.lookup id = none) :
    (s.initProducerIdExchange (some id)).1 =
      { s with
        nextProducerId := s.nextProducerId + 1
        txns := s.txns.insert id { producerId := s.nextProducerId + 1
                                   epoch := -1 + 1
                                   partitions := []
                                   pendingOffsets := ∅ }
        history := s.history ++ [.claimed id (-1 + 1)] } := by
  simp only [ClusterState.initProducerIdExchange, hid, Option.getD_none, if_true]

theorem claimed_foreign {id : String} (epoch : Int16) : ∀ event ∈ [Event.claimed id epoch],
    ∀ other, other ≠ id → event.foreign other := by
  intro event hmem other hne
  rw [List.mem_singleton.mp hmem]
  exact ⟨decide_eq_false hne.symm, rfl, fun _ => rfl, rfl⟩

/-- The next epoch of an id starts with nothing open, where nothing was. -/
theorem Separate.takeover (hkept : Separate s) {id : String} {txn : TxnState}
    (hid : s.txns.lookup id = some txn) (hsettled : Settled s txn) :
    Separate (s.initProducerIdExchange (some id)).1 := by
  obtain ⟨hpending, hclosed⟩ := hsettled
  rw [initProducerId_known hid]
  obtain ⟨hpos, hle⟩ := hkept.issued id txn hid
  refine hkept.renew hid rfl rfl (if_neg (ne_next hpos hle)) (fun _ _ _ hopen => hopen)
    (fun _ _ _ => rfl) (fun _ => Int.le_refl _) rfl (claimed_foreign _) (fun _ => rfl) ?_
  refine .fresh (AList.ext hpending) (fun key => ?_) (decide_eq_true rfl)
  show (s.log key).opened.lookup txn.producerId = none
  unfold ClusterState.log
  cases hlookup : s.logs.lookup key with
  | none => rfl
  | some log => exact hclosed ⟨key, log⟩ (lookup_eq_some_iff.mp hlookup)

/-- A new id has a producer that nobody else has. -/
theorem Separate.enroll (hkept : Separate s) {id : String} (hid : s.txns.lookup id = none)
    (hroom : s.nextProducerId.toInt + 1 < 2 ^ 63) :
    Separate (s.initProducerIdExchange (some id)).1 := by
  rw [initProducerId_new hid]
  have hnext := toInt_succ hroom hkept.nonneg
  refine ⟨?_, ?_, ?_, ?_, ?_, ?_⟩
  · intro id₁ id₂ txn₁ txn₂ h₁ h₂ heq
    rcases lookup_insert_cases h₁ with ⟨hid₁, htxn₁⟩ | ⟨_, hold₁⟩
    · rcases lookup_insert_cases h₂ with ⟨hid₂, _⟩ | ⟨_, hold₂⟩
      · exact hid₁.trans hid₂.symm
      · obtain ⟨hpos, hle⟩ := hkept.issued _ _ hold₂
        rw [htxn₁] at heq
        exact absurd heq.symm (ne_next hpos hle)
    · obtain ⟨hpos, hle⟩ := hkept.issued _ _ hold₁
      rcases lookup_insert_cases h₂ with ⟨_, htxn₂⟩ | ⟨_, hold₂⟩
      · rw [htxn₂] at heq
        exact absurd heq (ne_next hpos hle)
      · exact hkept.unique _ _ _ _ hold₁ hold₂ heq
  · intro id₁ txn₁ h₁
    have hnonneg := hkept.nonneg
    rcases lookup_insert_cases h₁ with ⟨_, htxn₁⟩ | ⟨_, hold₁⟩
    · rw [htxn₁]
      simp only
      omega
    · obtain ⟨hpos, hle⟩ := hkept.issued _ _ hold₁
      simp only
      omega
  · have hnonneg := hkept.nonneg
    simp only
    omega
  · intro key producerId hopen
    obtain ⟨owner, txn, hlookup, hsame⟩ := hkept.opened key producerId hopen
    have hne : owner ≠ id := fun heq => by
      rw [heq, hid] at hlookup
      cases hlookup
    exact ⟨owner, txn, (AList.lookup_insert_ne hne).trans hlookup, hsame⟩
  · intro key
    simp only
    rw [placedAt_append]
    exact (List.append_nil (placedAt key s.history)).symm ▸ hkept.offsets key
  · intro id₁ txn₁ h₁
    rcases lookup_insert_cases h₁ with ⟨hid₁, htxn₁⟩ | ⟨hne, hold₁⟩
    · rw [hid₁, htxn₁]
      refine .fresh rfl (fun key => ?_) (decide_eq_true rfl)
      cases hopen : (s.log key).opened.lookup (s.nextProducerId + 1) with
      | none => exact hopen
      | some first =>
          obtain ⟨owner, txn, hlookup, hsame⟩ :=
            hkept.opened key (s.nextProducerId + 1) (by rw [hopen]; rfl)
          obtain ⟨hpos, hle⟩ := hkept.issued _ _ hlookup
          exact absurd hsame (ne_next hpos hle)
    · refine (hkept.txns _ _ hold₁).others (fun _ => rfl) rfl
        (fun event hmem => claimed_foreign _ event hmem _ hne) fun key => ?_
      have hplaced : placedAt key [Event.claimed id (-1 + 1)] = [] := rfl
      rw [hplaced]
      unfold settledIn
      cases (s.log key).opened.lookup txn₁.producerId with
      | none => rfl
      | some first => rfl

/-- A takeover keeps the transactions apart where it finds no offsets pending. -/
theorem Separate.claim (hkept : Separate s) {id : String}
    (howned : OwnedStep s (.initProducerId (some id))) :
    Separate (s.initProducerIdExchange (some id)).1 := by
  obtain ⟨hroom, hsettled⟩ := howned
  cases hid : s.txns.lookup id with
  | some txn => exact hkept.takeover hid (hsettled txn hid)
  | none => exact hkept.enroll hid (hroom (by rw [hid]; rfl))

theorem Separate.next (hkept : Separate s) {action : Action} (howned : OwnedStep s action) :
    Separate (s.next action) := by
  cases action with
  | initProducerId transactionalId =>
      cases transactionalId with
      | some id => exact hkept.claim howned
      | none =>
          have hnext := toInt_succ howned hkept.nonneg
          refine ⟨hkept.unique, fun id txn htxn => ?_, ?_, hkept.opened, hkept.offsets, hkept.txns⟩
          · obtain ⟨hpos, hle⟩ := hkept.issued id txn htxn
            exact ⟨hpos, Int.le_trans hle (hnext ▸ Int.le_add_of_nonneg_right (by decide))⟩
          · exact Int.le_trans hkept.nonneg (hnext ▸ Int.le_add_of_nonneg_right (by decide))
  | produce nodeId request =>
      refine Keeps.exchange ⟨fun _ key h => h.touch key, ?_⟩ hkept howned
      exact fun _ _ _ _ h _ hset => h.produceSet hset
  | addPartitionsToTxn request => exact hkept.announce request
  | addOffsetsToTxn transactionalId epoch => exact hkept
  | txnOffsetCommit request => exact hkept.hold request
  | endTxn request => exact hkept.endTxn howned
  | createTopics validateOnly topics =>
      obtain ⟨_, _, heq⟩ := createTopics_frame validateOnly topics s
      show Separate (s.createTopicsExchange validateOnly topics).1
      rw [heq]
      exact ⟨hkept.unique, hkept.issued, hkept.nonneg, hkept.opened, hkept.offsets, hkept.txns⟩
  | stop nodeId =>
      exact ⟨hkept.unique, hkept.issued, hkept.nonneg, hkept.opened, hkept.offsets, hkept.txns⟩
  | start nodeId =>
      exact ⟨hkept.unique, hkept.issued, hkept.nonneg, hkept.opened, hkept.offsets, hkept.txns⟩

theorem OwnedRun.separate (hrun : OwnedRun s) : Separate s := by
  refine Reachable.invariant ?_ ?_ hrun
  · rintro _ ⟨ports, rfl⟩
    exact .start ports
  · rintro s action t hkept ⟨howned, hnext⟩
    obtain rfl := Option.some.inj hnext
    exact hkept.next howned

end Transactions

section Answers

variable {s t : ClusterState} {more : List Event}

/-- Every set that was answered without an error was appended. -/
def Answered (s : ClusterState) : Prop :=
  ∀ key set batches base, .acknowledged key set batches base ∈ s.history →
    ∃ transactionalId base', .appended key transactionalId set batches base' ∈ s.history

/-- Events that acknowledge only what was appended, or comes with them. -/
theorem Answered.grow (hanswered : Answered s) (hhistory : t.history = s.history ++ more)
    (hmore : ∀ key set batches base, .acknowledged key set batches base ∈ more →
      ∃ transactionalId base', .appended key transactionalId set batches base' ∈ t.history) :
    Answered t := by
  intro key set batches base hmem
  rw [hhistory] at hmem
  rcases List.mem_append.mp hmem with hold | hnew
  · obtain ⟨transactionalId, base', happended⟩ := hanswered key set batches base hold
    refine ⟨transactionalId, base', ?_⟩
    rw [hhistory]
    exact List.mem_append_left _ happended
  · exact hmore key set batches base hnew

theorem Answered.quiet (hanswered : Answered s) (hhistory : t.history = s.history ++ more)
    (hquiet : ∀ event ∈ more, event.quiet) : Answered t :=
  hanswered.grow hhistory fun _ _ _ _ hmem => (hquiet _ hmem).elim

theorem Answered.produceSet (hanswered : Answered s) {snapshot : AList fun _ : String => TxnState}
    {transactionalId : Option String} {key : Key} {set : Bytes} {batches : List RecordBatch}
    (howned : Owned snapshot transactionalId s key set batches) :
    Answered (s.produceSet snapshot transactionalId key set batches).1 := by
  unfold Owned at howned
  cases hleader : leaderVerdict snapshot (s.log key) transactionalId batches with
  | error code =>
      rw [produceSet_refused hleader]
      exact hanswered
  | ok known =>
      rw [hleader] at howned
      cases known with
      | some known =>
          rw [produceSet_recognized hleader]
          refine hanswered.grow rfl fun key set batches base hmem => ?_
          obtain ⟨rfl, rfl, rfl, rfl⟩ := Event.acknowledged.inj (List.mem_singleton.mp hmem)
          obtain ⟨transactionalId, base', happended⟩ := appendedBefore_mem howned
          exact ⟨transactionalId, base', List.mem_append_left _ happended⟩
      | none =>
          rw [produceSet_appended hleader]
          refine hanswered.grow rfl fun key set batches base hmem => ?_
          rcases List.mem_cons.mp hmem with heq | hmem
          · cases heq
          · obtain ⟨rfl, rfl, rfl, rfl⟩ := Event.acknowledged.inj (List.mem_singleton.mp hmem)
            exact ⟨transactionalId, _, List.mem_append_right _ List.mem_cons_self⟩

/-- What is answered without an error has been appended, step after step. -/
theorem Answered.next (hanswered : Answered s) {action : Action} (howned : OwnedStep s action) :
    Answered (s.next action) := by
  by_cases hproduce : ∃ nodeId request, action = .produce nodeId request
  · obtain ⟨nodeId, request, rfl⟩ := hproduce
    refine Keeps.exchange ⟨fun _ _ h => h, ?_⟩ hanswered howned
    exact fun _ _ _ _ h _ hset => h.produceSet hset
  · by_cases hend : ∃ request, action = .endTxn request
    · obtain ⟨request, rfl⟩ := hend
      show Answered (s.endTxnExchange request).1
      cases hcheck : s.txnEpochCheck request.transactionalId request.producerEpoch with
      | error code =>
          unfold ClusterState.endTxnExchange
          rw [hcheck]
          exact hanswered
      | ok txn =>
          refine hanswered.quiet (endTxn_history hcheck) fun event hmem => ?_
          rw [List.mem_singleton.mp hmem]
          trivial
    · obtain ⟨_, _, hhistory, hquiet⟩ := next_beside (s := s)
        (fun nodeId request heq => hproduce ⟨nodeId, request, heq⟩)
        fun request heq => hend ⟨request, heq⟩
      exact hanswered.quiet hhistory fun event hmem => (hquiet event hmem).1

theorem OwnedRun.answered (hrun : OwnedRun s) : Answered s := by
  refine Reachable.invariant ?_ ?_ hrun
  · rintro _ ⟨ports, rfl⟩
    exact fun _ _ _ _ hmem => (by cases hmem)
  · rintro s action t hanswered ⟨howned, hnext⟩
    obtain rfl := Option.some.inj hnext
    exact hanswered.next howned

end Answers

section Isolation

variable {s : ClusterState}

/-- The least of a list is at most each of them. -/
theorem foldl_least_le (offsets : List Int64) (first : Int64) :
    ∀ offset ∈ first :: offsets,
      (offsets.foldl (fun least offset => if offset < least then offset else least) first).toInt ≤
        offset.toInt := by
  induction offsets generalizing first with
  | nil =>
      intro offset hmem
      rw [List.mem_singleton.mp hmem]
      exact Int.le_refl _
  | cons next offsets ih =>
      intro offset hmem
      rw [List.foldl_cons]
      have hleast : ∀ other : Int64, (if next < first then next else first).toInt ≤ other.toInt →
          (offsets.foldl (fun least offset => if offset < least then offset else least)
            (if next < first then next else first)).toInt ≤ other.toInt :=
        fun other hle => Int.le_trans (ih _ _ List.mem_cons_self) hle
      rcases List.mem_cons.mp hmem with rfl | hmem
      · refine hleast _ ?_
        split
        next hlt => exact Int.le_of_lt (Int64.lt_iff_toInt_lt.mp hlt)
        next => exact Int.le_refl _
      · rcases List.mem_cons.mp hmem with rfl | hmem
        · refine hleast _ ?_
          split
          next => exact Int.le_refl _
          next hge => exact Int.not_lt.mp fun hlt => hge (Int64.lt_iff_toInt_lt.mpr hlt)
        · exact ih _ offset (List.mem_cons_of_mem _ hmem)

theorem lastStableOffset_le {log : PartitionLog} {producerId first : Int64}
    (hopen : log.opened.lookup producerId = some first) :
    log.lastStableOffset.toInt ≤ first.toInt := by
  have hmem : first ∈ log.opened.entries.map (·.2) :=
    List.mem_map.mpr ⟨⟨producerId, first⟩, lookup_eq_some_iff.mp hopen, rfl⟩
  unfold PartitionLog.lastStableOffset
  cases hopened : log.opened.entries.map (·.2) with
  | nil =>
      rw [hopened] at hmem
      cases hmem
  | cons head rest =>
      rw [hopened] at hmem
      exact foldl_least_le rest head first hmem

theorem committed_endTxn {request : EndTxnRequest} {txn : TxnState}
    (hcheck : s.txnEpochCheck request.transactionalId request.producerEpoch = .ok txn)
    (hcommit : request.committed = true) : (s.endTxnExchange request).1.committed =
      txn.pendingOffsets.entries.foldl
        (fun committed offset => committed.insert offset.1 offset.2) s.committed := by
  unfold ClusterState.endTxnExchange
  rw [hcheck]
  simp only
  rw [if_pos hcommit]

theorem aborted_finish (log : PartitionLog) (producerId : Int64) (committed : Bool) :
    (log.finish producerId committed).aborted = log.aborted ++
      if committed then [] else ((log.opened.lookup producerId).map (producerId, ·)).toList := by
  unfold PartitionLog.finish
  cases log.opened.lookup producerId with
  | none =>
      simp only [Option.map_none, Option.toList_none, ite_self]
      exact (List.append_nil _).symm
  | some first =>
      cases committed with
      | true => exact (List.append_nil _).symm
      | false => rfl

/-- What the books keep apart is what an observer of the broker asks for. -/
theorem Separate.isolates (hkept : Separate s) (hanswered : Answered s) : s.Isolates where
  published := by
    intro request txn hcheck hcommit key
    obtain ⟨hid, _⟩ := check_ok hcheck
    rw [committed_endTxn hcheck hcommit, lookup_foldl_entries, lookup_insertAll,
      (hkept.txns _ _ hid).held]
  ended := by
    intro request txn hcheck key
    rw [endTxn_log hcheck]
    exact ⟨lookup_finish_self _ _ _, aborted_finish _ _ _⟩
  settled := fun id txn htxn => (hkept.txns id txn htxn).sent
  current := fun id txn htxn => (hkept.txns id txn htxn).current
  stable := by
    intro id txn htxn key sent hsent
    rw [← (hkept.txns id txn htxn).sent key] at hsent
    unfold settledIn at hsent
    cases hopen : (s.log key).opened.lookup txn.producerId with
    | none =>
        rw [hopen] at hsent
        cases hsent
    | some first =>
        rw [hopen] at hsent
        have hbelow := (List.mem_filter.mp hsent).2
        simp only [Bool.and_eq_true, decide_eq_true_eq] at hbelow
        exact Int.le_trans (lastStableOffset_le hopen) hbelow.1
  answered := hanswered

end Isolation

/-- Transactions are isolated in every run of owned steps. -/
theorem transactions_isolated {s : ClusterState} (hrun : OwnedRun s) : s.Isolates :=
  hrun.separate.isolates hrun.answered

section Samples

def transactionalProduce (batch : RecordBatch) : Action :=
  let partition := { index := 0, records := some batch.bytes }
  .produce 3 { transactionalId := some "x"
               acks := -1
               topicData := [{ name := "t", topicId := [], partitionData := [partition] }] }

def transactionalOffset (epoch : Int16) : Action :=
  let partition := { partitionIndex := 0, committedOffset := 5, committedMetadata := none }
  .txnOffsetCommit { transactionalId := "x"
                     groupId := "g"
                     producerEpoch := epoch
                     topics := [{ name := "in", partitions := [partition] }] }

def openTransaction : List Action :=
  [.initProducerId (some "x"), transactionalProduce (stampedBatch 0), transactionalOffset 0]

/-- The batch that follows a stamped one, under the epoch of a successor. -/
def successorBatch : RecordBatch := { stampedBatch 1 with baseSequence := 1 }

/-- A transaction with a repeated produce, its end, a takeover, and the transaction after it. -/
def successorTransaction : List Action :=
  openTransaction ++ [transactionalProduce (stampedBatch 0),
    .endTxn { transactionalId := "x", producerEpoch := 0, committed := true },
    .initProducerId (some "x"), transactionalProduce successorBatch, transactionalOffset 1]

def takenOver : ClusterState :=
  (openTransaction ++ [Action.initProducerId (some "x")]).foldl ClusterState.next sampleStart

end Samples

theorem transactions_isolated_successor :
    ∃ s, OwnedRun s ∧ (placedAt ("t", 0) s.history).length = 2 ∧
      (sentSince "x" ("t", 0) s.history).length = 1 ∧ (heldSince "x" s.history).length = 1 ∧
        s.Isolates := by
  have hdone : (runActions OwnedStep (fun s action => some (s.next action)) sampleStart
      successorTransaction).any (fun s => (placedAt ("t", 0) s.history).length = 2 &&
        (sentSince "x" ("t", 0) s.history).length = 1 && (heldSince "x" s.history).length = 1) =
          true := by
    decide +kernel
  obtain ⟨s, hrun, hlengths⟩ := (Option.any_eq_true _ _).mp hdone
  simp only [Bool.and_eq_true, decide_eq_true_eq] at hlengths
  obtain ⟨⟨hplaced, hsent⟩, hheld⟩ := hlengths
  have howned : OwnedRun s := .of_run _ (.start ⟨_, rfl⟩) hrun
  exact ⟨s, howned, hplaced, hsent, hheld, transactions_isolated howned⟩

def successorCommit : EndTxnRequest :=
  { transactionalId := "x", producerEpoch := 1, committed := true }

/-- It publishes the offsets its predecessor left pending. -/
theorem takeover_inherits : ∃ s, BrokerRun s ∧ ¬ s.Isolates := by
  have hrun : BrokerRun takenOver := .all (.start ⟨_, rfl⟩) _
  refine ⟨_, hrun, fun hisolates => ?_⟩
  have hpublished : ((takenOver.endTxnExchange successorCommit).1.committed.lookup
      ("g", "in", 0)).isSome = true := by
    decide +kernel
  have hnothing : ((insertAll takenOver.committed (heldSince "x" takenOver.history)).lookup
      ("g", "in", 0)).isSome = false := by
    decide +kernel
  have hcheck : (takenOver.txnEpochCheck "x" 1).toOption.isSome = true := by
    decide +kernel
  cases hepoch : takenOver.txnEpochCheck "x" 1 with
  | error code =>
      rw [hepoch] at hcheck
      cases hcheck
  | ok txn =>
      have hequal := hisolates.published successorCommit txn hepoch rfl ("g", "in", 0)
      rw [hequal] at hpublished
      exact Bool.false_ne_true (hnothing.symm.trans hpublished)

end Odradek.Acceptance.Subject
