import Odradek.Client.AbortWayOut

/-!
What a failed enqueue or flush leaves in the buffers. Every early return puts back
what was drained, but for one: where the first stamp of a flush cannot be taken,
only the batch it was for goes back, and the rest of the buffer is gone.
-/

namespace Odradek.Client

open Library Library.Service Odradek.Protocol ProducerWorld Producer

variable {codecs : Codecs} {config : ProducerConfig}
  {okExec okDrop : ProducerOp → ProducerChoice → ProducerWorld → Bool}
  {s t u v w : ProducerWorld} {key : PartitionKey} {keys : List PartitionKey} {record : Record}
  {records : List Record} {parcel : Parcel} {parcels : List Parcel} {pending : PendingBatch}

section Survives

/-- A broker has acknowledged the records of the partition. -/
def AckedIn (new : ProducerLog) (key : PartitionKey) : Prop :=
  ∃ records p, (ProducerEvent.acked key records, p) ∈ new

/-- What was not acknowledged is as `before`, what was is gone. -/
structure Survives (before : PartitionKey → List Record) (new : ProducerLog) (p : Producer) :
    Prop where
  removed : ∀ key, AckedIn new key → p.pending.lookup key = none
  kept : ∀ key, ¬ AckedIn new key → (p.slot key).records = before key

/-- What is put on record from `s` to `t` is of one kind. -/
def Tells (P : ProducerEvent → Prop) (s t : ProducerWorld) : Prop :=
  ∃ new, t.log = s.log ++ new ∧ ∀ entry ∈ new, P entry.1

def NotAck (event : ProducerEvent) : Prop := ∀ key records, event ≠ .acked key records

theorem not_ackedIn_nil : ¬ AckedIn [] key := by
  rintro ⟨_, _, hmem⟩
  cases hmem

theorem ackedIn_append {new new' : ProducerLog} :
    AckedIn (new ++ new') key ↔ AckedIn new key ∨ AckedIn new' key := by
  simp only [AckedIn, List.mem_append, exists_or]

theorem ackedIn_singleton {event : ProducerEvent} {p : Producer} :
    AckedIn [(event, p)] key ↔ ∃ records, event = .acked key records := by
  simp only [AckedIn, List.mem_singleton, Prod.mk.injEq]
  constructor
  · rintro ⟨records, _, rfl, _⟩
    exact ⟨records, rfl⟩
  · rintro ⟨records, rfl⟩
    exact ⟨records, p, rfl, rfl⟩

theorem not_ackedIn_of_notAck {new : ProducerLog} (h : ∀ entry ∈ new, NotAck entry.1) :
    ¬ AckedIn new key := by
  rintro ⟨records, p, hmem⟩
  exact h _ hmem key records rfl

section Tells

variable {P Q : ProducerEvent → Prop}

theorem Tells.refl : Tells P s s :=
  ⟨[], (List.append_nil _).symm, fun _ hmem => by cases hmem⟩

theorem Tells.of_eq (h : t.log = s.log) : Tells P s t :=
  ⟨[], by rw [h, List.append_nil], fun _ hmem => by cases hmem⟩

theorem Tells.trans (h : Tells P s t) (h' : Tells P t u) : Tells P s u := by
  obtain ⟨new, hnew, hall⟩ := h
  obtain ⟨new', hnew', hall'⟩ := h'
  refine ⟨new ++ new', by rw [hnew', hnew, List.append_assoc], fun entry hmem => ?_⟩
  exact (List.mem_append.mp hmem).elim (hall entry) (hall' entry)

theorem Tells.noted {event : ProducerEvent} (h : P event) : Tells P s (s.note event) := by
  refine ⟨[(event, s.producer)], rfl, fun entry hmem => ?_⟩
  cases List.mem_singleton.mp hmem
  exact h

theorem Tells.told {event : ProducerEvent} {announced : Bool} (h : P event) :
    Tells P s (told s event announced) :=
  Tells.noted h

theorem Tells.setProducer {p : Producer} (h : Tells P s t) : Tells P s (t.setProducer p) := h

theorem Tells.mono (h : Tells P s t) (hle : ∀ event, P event → Q event) : Tells Q s t := by
  obtain ⟨new, hnew, hall⟩ := h
  exact ⟨new, hnew, fun entry hmem => hle _ (hall entry hmem)⟩

end Tells

end Survives

section Buffers

theorem slot_of_not_mem {p : Producer} (h : key ∉ p.pending.keys) : p.slot key = .default := by
  rw [slot, AList.lookup_eq_none.mpr h]
  rfl

theorem slot_restore (key' : PartitionKey) :
    ((s.restore key pending).producer.slot key').records =
      (if key' = key then pending.records else []) ++ (s.producer.slot key').records := by
  change ((((s.producer.pending.insert key _).lookup key').getD .default).records) = _
  by_cases hkey : key' = key
  · subst hkey
    rw [AList.lookup_insert, if_pos rfl]
    rfl
  · rw [AList.lookup_insert_ne hkey, if_neg hkey, List.nil_append]
    rfl

theorem slot_restoredAll {p : Producer} (hnodup : keys.Nodup) (key : PartitionKey) :
    ((restoredAll s (keys.map fun k => (k, p.slot k))).producer.slot key).records =
      (if key ∈ keys then (p.slot key).records else []) ++ (s.producer.slot key).records := by
  induction keys generalizing s with
  | nil => rfl
  | cons k rest ih =>
      obtain ⟨hfresh, hrest⟩ := List.nodup_cons.mp hnodup
      have hstep := ih (s := s.restore k (p.slot k)) hrest
      rw [slot_restore] at hstep
      refine hstep.trans ?_
      by_cases hkey : key = k
      · subst hkey
        rw [if_neg hfresh, if_pos rfl, if_pos List.mem_cons_self, List.nil_append]
      · rw [if_neg hkey, List.nil_append]
        simp only [List.mem_cons, hkey, false_or]

theorem records_of_not_drained {p : Producer} (hperm : keys.Perm p.pending.keys)
    (h : key ∉ keys) : (p.slot key).records = [] := by
  rw [slot_of_not_mem fun hmem => h (hperm.mem_iff.mpr hmem)]
  rfl

theorem nodup_of_perm {p : Producer} (hperm : keys.Perm p.pending.keys) : keys.Nodup :=
  hperm.nodup_iff.mpr p.pending.nodupKeys

end Buffers

section Parts

theorem Claims.buffers {out : Option (Except ClientError Unit)}
    (h : Claims config okExec okDrop keys s out t) :
    t.producer.pending = s.producer.pending ∧
      Tells (fun event => ∃ answer, out = some answer ∧
        event = .claimed (s.producer.unclaimed keys) answer) s t := by
  cases h with
  | unneeded _ | refused _ _ _ | dropped _ _ _ _ => exact ⟨rfl, .of_eq rfl⟩
  | answered txn answers answer _ _ _ _ _ =>
      exact ⟨by cases answer <;> rfl, Tells.setProducer (Tells.told ⟨answer, rfl, rfl⟩)⟩

theorem Identifies.buffers {out : Option (Except ClientError ProducerIdentity)}
    (h : Identifies config okDrop s out t) :
    t.producer.pending = s.producer.pending ∧
      Tells (fun event => ∃ answer, out = some answer ∧ event = .identified answer) s t := by
  cases h with
  | known _ _ | refused _ _ _ | dropped _ _ _ _ => exact ⟨rfl, .of_eq rfl⟩
  | issued answers identity _ _ _ =>
    exact ⟨rfl, Tells.setProducer (Tells.told ⟨.ok identity, rfl, rfl⟩)⟩
  | unissued answers e _ _ _ => exact ⟨rfl, Tells.told ⟨.error e, rfl, rfl⟩⟩

/-- The stamp tells of the identity it asked for, and fails where that does. -/
theorem Stamps.buffers {n : Nat} {out : Option (Except ClientError (Option BatchStamp))}
    (h : Stamps config okExec okDrop key n s out t) :
    t.producer.pending = s.producer.pending ∧
      Tells (fun event => ∃ answer, event = .identified answer ∧
        ∀ stamp, out = some (.ok stamp) → ∃ identity, answer = .ok identity) s t := by
  cases h with
  | plain _ | refused _ _ _ => exact ⟨rfl, .refl⟩
  | unidentified _ _ _ _ hidentifies | dropped _ _ _ hidentifies =>
      obtain ⟨hpending, htells⟩ := hidentifies.buffers
      refine ⟨hpending, htells.mono fun event ⟨answer, _, hevent⟩ => ?_⟩
      exact ⟨answer, hevent, fun _ heq => by cases heq⟩
  | stamped identity u _ _ hidentifies _ =>
      obtain ⟨hpending, htells⟩ := hidentifies.buffers
      refine ⟨hpending, Tells.setProducer (htells.mono fun event ⟨answer, hanswer, hevent⟩ => ?_)⟩
      cases hanswer
      exact ⟨.ok identity, hevent, fun _ _ => ⟨identity, rfl⟩⟩

/-- An attempt that succeeds acknowledges its own parcel, and no other. -/
theorem attempt_log (parcel : Parcel) (set : Bytes) (a : Answer Int64) :
    ∃ new, (s.attempt parcel set a).log = s.log ++ new ∧
      ∀ k, AckedIn new k ↔ k = parcel.key ∧ a.result.isOk = true := by
  have hsent : Tells NotAck s (if a.sent then s.note (.sent parcel set a.applied) else s) := by
    split
    · exact Tells.noted fun _ _ heq => by cases heq
    · exact Tells.refl
  obtain ⟨new, hnew, hnotAck⟩ := hsent
  have hnone : ∀ k, ¬ AckedIn new k := fun k => not_ackedIn_of_notAck hnotAck
  unfold attempt
  dsimp only
  generalize (if a.sent then s.note (.sent parcel set a.applied) else s) = w at hnew ⊢
  cases hok : a.result.isOk with
  | true =>
      refine ⟨new ++ [(.acked parcel.key parcel.pending.records, w.producer)], ?_, fun k => ?_⟩
      · rw [if_pos rfl, ← List.append_assoc, ← hnew]
        rfl
      · rw [ackedIn_append, ackedIn_singleton]
        constructor
        · rintro (hacked | ⟨records, heq⟩)
          · exact absurd hacked (hnone k)
          · cases heq
            exact ⟨rfl, rfl⟩
        · rintro ⟨rfl, _⟩
          exact .inr ⟨_, rfl⟩
  | false =>
      refine ⟨new, hnew, fun k => ⟨fun hacked => absurd hacked (hnone k), fun h => ?_⟩⟩
      cases h.2

theorem attempts_log (parcel : Parcel) (set : Bytes) (answers : List (Answer Int64)) :
    ∃ new, (answers.foldl (fun w a => w.attempt parcel set a) s).log = s.log ++ new ∧
      ∀ k, AckedIn new k ↔ k = parcel.key ∧ ∃ a ∈ answers, a.result.isOk = true := by
  induction answers generalizing s with
  | nil =>
      refine ⟨[], (List.append_nil _).symm, fun k => ⟨fun h => absurd h not_ackedIn_nil, ?_⟩⟩
      rintro ⟨_, a, hmem, _⟩
      cases hmem
  | cons a rest ih =>
      obtain ⟨new, hnew, hacked⟩ := attempt_log (s := s) parcel set a
      obtain ⟨new', hnew', hacked'⟩ := ih (s := s.attempt parcel set a)
      refine ⟨new ++ new', ?_, fun k => ?_⟩
      · rw [List.foldl_cons, hnew', hnew, List.append_assoc]
      · rw [ackedIn_append, hacked, hacked', ← and_or_left, List.exists_mem_cons_iff]

/-- A delivery is acknowledged where it comes to an offset. -/
theorem fly_log {flight : Flight} {outcome : Except ClientError Int64}
    (h : landing codecs config parcel flight = some outcome) :
    ∃ new, (s.fly codecs config parcel flight).log = s.log ++ new ∧
      ∀ k, AckedIn new k ↔ k = parcel.key ∧ ∃ offset, outcome = .ok offset := by
  unfold landing at h
  unfold fly
  cases hset : recordSet codecs config parcel flight.nowMs with
  | error e =>
      simp only [hset] at h ⊢
      obtain ⟨_, heq⟩ := Option.ite_none_right_eq_some.mp h
      cases heq
      refine ⟨[], (List.append_nil _).symm, fun k => ⟨fun h => absurd h not_ackedIn_nil, ?_⟩⟩
      rintro ⟨_, offset, heq⟩
      cases heq
  | ok set =>
      simp only [hset] at h ⊢
      obtain ⟨new, hnew, hacked⟩ := attempts_log (s := s) parcel set flight.answers
      refine ⟨new, hnew, fun k => (hacked k).trans (and_congr_right fun _ => ?_)⟩
      have hresults : (∃ a ∈ flight.answers, a.result.isOk = true) ↔
          ∃ r ∈ flight.answers.map (·.result), r.isOk = true := by
        simp only [List.mem_map, exists_exists_and_eq_and]
      rw [hresults]
      obtain ⟨_, hloop⟩ := Option.ite_none_right_eq_some.mp h
      rcases retryLoop_cases hloop with ⟨hnil, rfl⟩ | ⟨front, hfront, herrors⟩
      · rw [hnil]
        constructor
        · rintro ⟨_, hmem, _⟩
          cases hmem
        · rintro ⟨offset, heq⟩
          cases heq
      · rw [hfront]
        constructor
        · rintro ⟨r, hmem, hok⟩
          rcases List.mem_append.mp hmem with hmem | hmem
          · obtain ⟨e, rfl⟩ := herrors r hmem
            cases hok
          · cases List.mem_singleton.mp hmem
            cases outcome with
            | ok offset => exact ⟨offset, rfl⟩
            | error e => cases hok
        · rintro ⟨offset, rfl⟩
          exact ⟨_, List.mem_append_right _ List.mem_cons_self, rfl⟩

theorem Delivers.unacked {e : ClientError}
    (h : Delivers codecs config okExec okDrop parcel s (some (.error e)) t) :
    t.producer = s.producer ∧ Tells NotAck s t := by
  cases h with
  | landed flight outcome _ hlanding =>
      obtain ⟨new, hnew, hacked⟩ := fly_log (s := s) hlanding
      refine ⟨producer_fly, Tells.trans (t := s.fly codecs config parcel flight)
        ⟨new, hnew, fun entry hmem key records heq => ?_⟩ (.noted fun _ _ heq => by cases heq)⟩
      obtain ⟨_, offset, hoffset⟩ := (hacked key).mp ⟨records, entry.2, by rw [← heq]; exact hmem⟩
      cases hoffset

/-- All deliveries of a flush: who is acknowledged, and who is not. -/
theorem deliver_log {flights : List Flight} {outcomes : List (Except ClientError Int64)}
    (h : s.deliver codecs config parcels flights = some (outcomes, t)) :
    t.producer = s.producer ∧ outcomes.length = parcels.length ∧
      ∃ new, t.log = s.log ++ new ∧ ∀ k, AckedIn new k ↔
        ∃ result ∈ parcels.zip outcomes, result.1.key = k ∧ ∃ offset, result.2 = .ok offset := by
  induction parcels generalizing s flights outcomes with
  | nil =>
      obtain ⟨_, rfl, rfl⟩ := deliver_nil h
      refine ⟨rfl, rfl, [], (List.append_nil _).symm, fun k =>
        ⟨fun h => absurd h not_ackedIn_nil, ?_⟩⟩
      rintro ⟨_, hmem, _⟩
      cases hmem
  | cons parcel rest ih =>
      obtain ⟨flight, flights', outcome, outcomes', _, hlanding, hrest, rfl⟩ := deliver_cons h
      obtain ⟨new, hnew, hacked⟩ := fly_log (s := s) hlanding
      obtain ⟨hproducer, hlength, new', hnew', hacked'⟩ := ih hrest
      refine ⟨hproducer.trans producer_fly, ?_, new ++ ((.delivered parcel.key outcome,
        (s.fly codecs config parcel flight).producer) :: new'), ?_, fun k => ?_⟩
      · rw [List.length_cons, List.length_cons, hlength]
      · rw [hnew']
        change ((s.fly codecs config parcel flight).log ++ [_]) ++ new' = _
        rw [hnew, List.append_assoc, List.append_assoc]
        rfl
      · rw [ackedIn_append, hacked, List.zip_cons_cons, List.exists_mem_cons_iff]
        refine or_congr (and_congr_left fun _ => eq_comm) ?_
        rw [← hacked' k, ← List.singleton_append, ackedIn_append, ackedIn_singleton]
        refine ⟨fun h => h.resolve_left ?_, .inr⟩
        rintro ⟨_, heq⟩
        cases heq

theorem attempts_tell {P : ProducerEvent → Prop} {set : Bytes}
    (hsent : ∀ applied, P (.sent parcel set applied))
    (hacked : P (.acked parcel.key parcel.pending.records)) (answers : List (Answer Int64)) :
    Tells P s (answers.foldl (fun w a => w.attempt parcel set a) s) := by
  induction answers generalizing s with
  | nil => exact .refl
  | cons a rest ih =>
      refine Tells.trans ?_ ih
      have htold : Tells P s (if a.sent then s.note (.sent parcel set a.applied) else s) := by
        split
        · exact Tells.noted (hsent _)
        · exact Tells.refl
      unfold attempt
      dsimp only
      split
      · exact Tells.trans (t := (ite _ _ _ : ProducerWorld).letGo parcel.key) htold (.noted hacked)
      · exact htold

theorem fly_tells {P : ProducerEvent → Prop} {flight : Flight}
    (hsent : ∀ set applied, P (.sent parcel set applied))
    (hacked : P (.acked parcel.key parcel.pending.records)) :
    Tells P s (s.fly codecs config parcel flight) := by
  unfold fly
  split
  · exact .refl
  · exact attempts_tell (hsent _) hacked _

theorem deliver_tells {P : ProducerEvent → Prop} {flights : List Flight}
    {outcomes : List (Except ClientError Int64)}
    (hsent : ∀ parcel set applied, P (.sent parcel set applied))
    (hacked : ∀ key records, P (.acked key records))
    (hdelivered : ∀ result ∈ parcels.zip outcomes, P (.delivered result.1.key result.2))
    (h : s.deliver codecs config parcels flights = some (outcomes, t)) : Tells P s t := by
  induction parcels generalizing s flights outcomes with
  | nil =>
      obtain ⟨_, _, rfl⟩ := deliver_nil h
      exact .refl
  | cons parcel rest ih =>
      obtain ⟨flight, flights', outcome, outcomes', _, _, hrest, rfl⟩ := deliver_cons h
      have hfirst := hdelivered (parcel, outcome) List.mem_cons_self
      exact (fly_tells (hsent parcel) (hacked _ _)).trans ((Tells.noted hfirst).trans
        (ih (fun r hr => hdelivered r (List.mem_cons_of_mem _ hr)) hrest))

theorem log_settled {results : List (Parcel × Except ClientError Int64)} :
    (settled s results).log = s.log := by
  induction results generalizing s with
  | nil => rfl
  | cons result rest ih =>
      obtain ⟨parcel, outcome⟩ := result
      cases outcome <;> exact ih

theorem log_restoredAll {batches : List (PartitionKey × PendingBatch)} :
    (restoredAll s batches).log = s.log := by
  induction batches generalizing s with
  | nil => rfl
  | cons batch rest ih => exact ih

/-- What is settled is put back where the delivery failed. -/
theorem lookup_settled {key : PartitionKey} {results : List (Parcel × Except ClientError Int64)}
    (h : ∀ result ∈ results, result.1.key = key → ∃ offset, result.2 = .ok offset) :
    (settled s results).producer.pending.lookup key = s.producer.pending.lookup key := by
  induction results generalizing s with
  | nil => rfl
  | cons result rest ih =>
      have hrest := fun r hr => h r (List.mem_cons_of_mem _ hr)
      obtain ⟨parcel, outcome⟩ := result
      cases outcome with
      | ok _ => exact ih hrest
      | error e =>
          have hkey : key ≠ parcel.key := by
            intro heq
            obtain ⟨offset, hoffset⟩ := h _ List.mem_cons_self heq.symm
            cases hoffset
          refine (ih hrest).trans ?_
          change ((s.producer.rewind parcel.key parcel.stamp).pending.insert parcel.key _).lookup
            key = _
          rw [AList.lookup_insert_ne hkey]
          cases parcel.stamp <;> rfl

theorem slot_handedBack (key : PartitionKey) :
    ((handedBack s parcel).producer.slot key).records =
      (if key = parcel.key then parcel.pending.records else []) ++
        (s.producer.slot key).records := by
  refine (slot_restore key).trans ?_
  cases parcel.stamp <;> rfl

theorem slot_settled {results : List (Parcel × Except ClientError Int64)} {e : ClientError}
    (hnodup : (results.map fun result => result.1.key).Nodup)
    (hmem : (parcel, .error e) ∈ results) :
    ((settled s results).producer.slot parcel.key).records =
      parcel.pending.records ++ (s.producer.slot parcel.key).records := by
  induction results generalizing s with
  | nil => cases hmem
  | cons result rest ih =>
      obtain ⟨hfresh, hrest⟩ := List.nodup_cons.mp hnodup
      rcases List.mem_cons.mp hmem with rfl | hrestMem
      · have hothers : ∀ r ∈ rest, r.1.key = parcel.key → ∃ offset, r.2 = Except.ok offset := by
          intro r hr heq
          exact absurd (List.mem_map.mpr ⟨r, hr, heq⟩) hfresh
        change ((settled (handedBack s parcel) rest).producer.slot parcel.key).records = _
        rw [slot, lookup_settled hothers]
        exact (slot_handedBack parcel.key).trans (by rw [if_pos rfl])
      · obtain ⟨other, outcome⟩ := result
        cases outcome with
        | ok _ => exact ih hrest hrestMem
        | error e' =>
            refine (ih hrest hrestMem).trans ?_
            have hother : parcel.key ≠ other.key := fun heq =>
              hfresh (List.mem_map.mpr ⟨(parcel, .error e), hrestMem, heq⟩)
            rw [slot_handedBack, if_neg hother, List.nil_append]

end Parts

section Stamping

theorem checkIdempotentAcks_ok {acks : Int16} :
    checkIdempotentAcks acks = .ok () ↔ acks = acksAll := by
  unfold checkIdempotentAcks
  split
  next heq => exact ⟨fun _ => heq, fun _ => rfl⟩
  next hne => exact ⟨fun h => (by cases h), fun h => absurd h hne⟩

def Steady (config : ProducerConfig) (p : Producer) : Prop :=
  config.idempotent = true → config.acks = acksAll ∧ p.identity ≠ none

theorem steady_of_stamps {n : Nat} {stamp : Option BatchStamp}
    (h : Stamps config okExec okDrop key n s (some (.ok stamp)) t) : Steady config t.producer := by
  cases h with
  | plain hplain =>
      intro hidempotent
      rw [hplain] at hidempotent
      cases hidempotent
  | stamped identity u _ hacks hidentifies _ =>
      refine fun _ => ⟨checkIdempotentAcks_ok.mp hacks, ?_⟩
      change u.producer.identity ≠ none
      cases hidentifies with
      | known _ hsome => rw [hsome]; exact fun hnone => (by cases hnone)
      | issued _ _ _ _ _ => exact fun hnone => (by cases hnone)

theorem Steady.stamps {n : Nat} {e : ClientError} (hsteady : Steady config s.producer) :
    ¬ Stamps config okExec okDrop key n s (some (.error e)) t := by
  intro h
  cases h with
  | refused _ hidempotent hacks =>
      rw [checkIdempotentAcks_ok.mpr (hsteady hidempotent).1] at hacks
      cases hacks
  | unidentified _ _ hidempotent _ hidentifies =>
      have hsome := (hsteady hidempotent).2
      cases hidentifies with
      | refused _ hnone _ | unissued _ _ hnone _ _ => exact hsome hnone

theorem Steady.stampsAll {batches : List (PartitionKey × PendingBatch)} {stamped : List Parcel}
    {e : ClientError} {out : Option (Except ClientError (List Parcel))}
    (h : StampsAll config okExec okDrop batches stamped s out t)
    (hsteady : Steady config s.producer) : out ≠ some (.error e) := by
  induction h with
  | nil => exact fun heq => (by cases heq)
  | cons _ _ _ hstamp _ ih => exact ih (steady_of_stamps hstamp)
  | failed _ _ _ hstamp => exact absurd hstamp hsteady.stamps
  | dropped _ _ _ => exact fun heq => (by cases heq)

/-- Only the first stamp of a flush can fail. -/
theorem first_of_stampsAll {batches : List (PartitionKey × PendingBatch)} {e : ClientError}
    (h : StampsAll config okExec okDrop batches [] s (some (.error e)) t) :
    ∃ key pending rest u, batches = (key, pending) :: rest ∧
      Stamps config okExec okDrop key pending.records.length s (some (.error e)) u ∧
      t = u.restore key pending := by
  cases h with
  | failed key pending _ hstamp => exact ⟨key, pending, _, _, rfl, hstamp, rfl⟩
  | cons _ _ _ hstamp hrest =>
      exact absurd rfl (Steady.stampsAll hrest (steady_of_stamps hstamp))

/-- Stamps that are all taken leave the batches as they were, and the producer steady. -/
theorem stampsAll_ok {batches : List (PartitionKey × PendingBatch)} {stamped parcels : List Parcel}
    {out : Option (Except ClientError (List Parcel))}
    (h : StampsAll config okExec okDrop batches stamped s out t) (hout : out = some (.ok parcels)) :
    parcels.map (fun parcel => (parcel.key, parcel.pending)) =
        stamped.map (fun parcel => (parcel.key, parcel.pending)) ++ batches ∧
      t.producer.pending = s.producer.pending ∧
      Tells (fun event => ∃ identity, event = .identified (.ok identity)) s t ∧
      (batches ≠ [] → Steady config t.producer) := by
  induction h with
  | nil =>
      cases hout
      exact ⟨(List.append_nil _).symm, rfl, .refl, fun hne => absurd rfl hne⟩
  | cons key pending stamp hstamp hrest ih =>
      obtain ⟨hmap, hpending, htells, hsteady⟩ := ih hout
      obtain ⟨hpending', htells'⟩ := hstamp.buffers
      refine ⟨?_, hpending.trans hpending', ?_, fun _ => ?_⟩
      · rw [hmap, List.map_append, List.append_assoc]
        rfl
      · refine Tells.trans (htells'.mono ?_) htells
        rintro event ⟨answer, rfl, hanswer⟩
        obtain ⟨identity, rfl⟩ := hanswer stamp rfl
        exact ⟨identity, rfl⟩
      · cases hrest with
        | nil _ _ => exact steady_of_stamps hstamp
        | cons _ _ _ _ _ => exact hsteady fun heq => (by cases heq)
        | failed _ _ _ _ => cases hout
        | dropped _ _ _ => cases hout
  | failed _ _ _ _ => cases hout
  | dropped _ _ _ => cases hout

/-- What a flush stamps is one batch for each partition it drained. -/
theorem keys_stamped {stamped : List Parcel}
    (hstamps : StampsAll config okExec okDrop (s.drain keys).1 [] u (some (.ok stamped)) v) :
    stamped.map (·.key) = keys := by
  have hbatches := (stampsAll_ok hstamps rfl).1
  have hfst := congrArg (List.map Prod.fst) hbatches
  simpa only [ProducerWorld.drain, List.map_nil, List.nil_append, List.map_map,
    Function.comp_def, List.map_id'] using hfst

theorem keys_zip_outcomes {stamped : List Parcel} {outcomes : List (Except ClientError Int64)}
    (hstamps : StampsAll config okExec okDrop (s.drain keys).1 [] u (some (.ok stamped)) v)
    (hlength : outcomes.length = stamped.length) :
    (stamped.zip outcomes).map (fun result => result.1.key) = keys := by
  have hfst : (stamped.zip outcomes).map Prod.fst = stamped :=
    List.map_fst_zip (Nat.le_of_eq hlength.symm)
  have hmapped := congrArg (List.map fun parcel : Parcel => parcel.key) hfst
  rw [List.map_map, keys_stamped hstamps] at hmapped
  exact hmapped

end Stamping

section Spills

/-- The partitions of a flush are claimed, or need no claim. -/
def ClaimsPass (p : Producer) (keys : List PartitionKey) (new : ProducerLog) : Prop :=
  p.txnState = .disabled ∨ (p.txnState = .opened ∧ (p.unclaimed keys = [] ∨
    ∃ q, (ProducerEvent.claimed (p.unclaimed keys) (.ok ()), q) ∈ new))

/-- A flush gets to its stamps and cannot take the first. -/
def StampsFail (config : ProducerConfig) (p : Producer) (keys : List PartitionKey)
    (new : ProducerLog) : Prop :=
  ClaimsPass p keys new ∧ config.idempotent = true ∧
    (config.acks ≠ acksAll ∨ ∃ e q, (ProducerEvent.identified (.error e), q) ∈ new)

/-- It does so with records in another partition than the first it drained. -/
def Spills (config : ProducerConfig) (p : Producer) (new : ProducerLog) : Prop :=
  ∃ keys q rest, new = (ProducerEvent.drained keys, q) :: rest ∧ StampsFail config p keys rest ∧
    ∃ key ∈ keys.tail, (p.slot key).records ≠ []

theorem claimsPass_of_ok (h : Claims config okExec okDrop keys s (some (.ok ())) t) :
    ∃ new, t.log = s.log ++ new ∧ ClaimsPass s.producer keys new ∧
      requireProducible t.producer.txnState = .ok () := by
  cases h with
  | unneeded hstate =>
      refine ⟨[], (List.append_nil _).symm, ?_, ?_⟩
      · exact hstate.imp id fun ⟨hopened, hnone⟩ => ⟨hopened, .inl hnone⟩
      · rcases hstate with hstate | ⟨hstate, _⟩ <;> rw [hstate] <;> rfl
  | answered txn answers _ hopened _ _ _ _ =>
      refine ⟨[(.claimed (s.producer.unclaimed keys) (.ok ()), s.producer)], rfl,
        .inr ⟨hopened, .inr ⟨s.producer, List.mem_cons_self⟩⟩, ?_⟩
      change requireProducible s.producer.txnState = _
      rw [hopened]
      rfl

/-- Claims that end in an error have not passed. -/
theorem not_claimsPass_of_error {e : ClientError} {new : ProducerLog}
    (h : Claims config okExec okDrop keys s (some (.error e)) t) (hlog : t.log = s.log ++ new) :
    ¬ ClaimsPass s.producer keys new := by
  obtain ⟨_, new', hnew', hall⟩ := h.buffers
  obtain rfl := List.append_cancel_left (hlog.symm.trans hnew')
  rintro (hdisabled | ⟨hopened, hnone | ⟨q, hmem⟩⟩)
  · cases h with
    | refused _ hne _ => exact hne hdisabled
    | answered _ _ _ hopened _ _ _ _ => rw [hopened] at hdisabled; cases hdisabled
  · cases h with
    | refused _ _ hrefused =>
        rw [hopened] at hrefused
        rcases hrefused with hrefused | ⟨hne, _⟩
        · cases hrefused
        · exact hne hnone
    | answered _ _ _ _ _ hne _ _ => exact hne hnone
  · obtain ⟨answer, hanswer, heq⟩ := hall _ hmem
    cases hanswer
    cases heq

theorem stampsFail_of_stamps {n : Nat} {e : ClientError}
    (hproducible : requireProducible s.producer.txnState = .ok ())
    (h : Stamps config okExec okDrop key n s (some (.error e)) t) :
    config.idempotent = true ∧ ∃ new, t.log = s.log ++ new ∧
      (config.acks ≠ acksAll ∨ ∃ e q, (ProducerEvent.identified (.error e), q) ∈ new) := by
  cases h with
  | refused _ hidempotent hacks =>
      refine ⟨hidempotent, [], (List.append_nil _).symm, .inl fun heq => ?_⟩
      rw [checkIdempotentAcks_ok.mpr heq] at hacks
      cases hacks
  | unidentified _ _ hidempotent _ hidentifies =>
      refine ⟨hidempotent, ?_⟩
      cases hidentifies with
      | refused _ _ hrefused =>
          rw [hproducible] at hrefused
          cases hrefused
      | unissued _ _ _ _ _ =>
          exact ⟨[(.identified (.error e), s.producer)], rfl,
            .inr ⟨e, s.producer, List.mem_cons_self⟩⟩

theorem spills_iff {p q : Producer} {rest : ProducerLog} :
    Spills config p ((.drained keys, q) :: rest) ↔
      StampsFail config p keys rest ∧ ∃ key ∈ keys.tail, (p.slot key).records ≠ [] := by
  constructor
  · rintro ⟨_, _, _, heq, hspills⟩
    cases heq
    exact hspills
  · exact fun h => ⟨keys, q, rest, rfl, h⟩

end Spills

section Failed

theorem Survives.of_unacked {before : PartitionKey → List Record} {new : ProducerLog}
    {p : Producer} (hnone : ∀ key, ¬ AckedIn new key)
    (h : ∀ key, (p.slot key).records = before key) : Survives before new p :=
  ⟨fun key hacked => absurd hacked (hnone key), fun key _ => h key⟩

theorem drained_restored (hperm : keys.Perm s.producer.pending.keys)
    (hempty : u.producer.pending = ∅) (key : PartitionKey) :
    ((restoredAll u (s.drain keys).1).producer.slot key).records =
      (s.producer.slot key).records := by
  refine (slot_restoredAll (nodup_of_perm hperm) key).trans ?_
  rw [slot_of_not_mem (p := u.producer) (by rw [hempty]; exact List.not_mem_nil)]
  split
  · exact List.append_nil _
  · rw [records_of_not_drained hperm ‹_›]
    rfl

theorem survives_of_unclaimed {e : ClientError} {new : ProducerLog}
    (hperm : keys.Perm s.producer.pending.keys)
    (hclaims : Claims config okExec okDrop keys (s.drain keys).2 (some (.error e)) u)
    (hlog : (restoredAll u (s.drain keys).1).log = s.log ++ new) :
    Survives (fun key => (s.producer.slot key).records) new
      (restoredAll u (s.drain keys).1).producer ∧ ¬ Spills config s.producer new := by
  obtain ⟨hpending, new', hnew', hall⟩ := hclaims.buffers
  have hnew : new = (.drained keys, (s.drain keys).2.producer) :: new' := by
    rw [log_restoredAll, hnew'] at hlog
    refine (List.append_cancel_left (hlog.symm.trans ?_)).symm ▸ rfl
    exact List.append_assoc s.log [(.drained keys, (s.drain keys).2.producer)] new'
  subst hnew
  refine ⟨.of_unacked (fun key hacked => ?_) (drained_restored hperm hpending), fun hspills => ?_⟩
  · obtain ⟨records, p, hmem⟩ := hacked
    rcases List.mem_cons.mp hmem with heq | hmem
    · cases heq
    · obtain ⟨_, _, heq⟩ := hall _ hmem
      cases heq
  · exact not_claimsPass_of_error hclaims hnew' (spills_iff.mp hspills).1.1

/-- A flush that fails before its batches go out keeps them, exactly when it spills nothing. -/
theorem survives_iff_of_unstamped {e : ClientError} {new : ProducerLog}
    (hperm : keys.Perm s.producer.pending.keys)
    (hclaims : Claims config okExec okDrop keys (s.drain keys).2 (some (.ok ())) u)
    (hstamps : StampsAll config okExec okDrop (s.drain keys).1 [] u (some (.error e)) t)
    (hlog : t.log = s.log ++ new) :
    Survives (fun key => (s.producer.slot key).records) new t.producer ↔
      ¬ Spills config s.producer new := by
  obtain ⟨key, pending, rest, v, hbatches, hstamp, rfl⟩ := first_of_stampsAll hstamps
  obtain ⟨claimed, hclaimed, hpass, hproducible⟩ := claimsPass_of_ok hclaims
  obtain ⟨hidempotent, stamped, hstamped, hfail⟩ := stampsFail_of_stamps hproducible hstamp
  obtain ⟨hempty, new', hnew', hnotAck⟩ := hclaims.buffers
  obtain ⟨hempty', new'', hnew'', hnotAck'⟩ := hstamp.buffers
  obtain rfl := List.append_cancel_left (hclaimed.symm.trans hnew')
  obtain rfl := List.append_cancel_left (hstamped.symm.trans hnew'')
  have hnew : new = (.drained keys, (s.drain keys).2.producer) :: (claimed ++ stamped) := by
    refine (List.append_cancel_left (hlog.symm.trans (hstamped.trans ?_)))
    rw [hclaimed, List.append_assoc]
    exact List.append_assoc s.log [(.drained keys, (s.drain keys).2.producer)] (claimed ++ stamped)
  subst hnew
  have hunacked : ∀ k, ¬ AckedIn ((.drained keys, (s.drain keys).2.producer) ::
      (claimed ++ stamped)) k := by
    rintro k ⟨records, p, hmem⟩
    rcases List.mem_cons.mp hmem with heq | hmem
    · cases heq
    rcases List.mem_append.mp hmem with hmem | hmem
    · obtain ⟨_, _, heq⟩ := hnotAck _ hmem
      cases heq
    · obtain ⟨_, heq, _⟩ := hnotAck' _ hmem
      cases heq
  obtain ⟨others, rfl, rfl⟩ : ∃ others, keys = key :: others ∧ pending = s.producer.slot key := by
    cases keys with
    | nil => cases hbatches
    | cons k others =>
        obtain ⟨hbatch, _⟩ := List.cons.inj hbatches
        cases hbatch
        exact ⟨others, rfl, rfl⟩
  have hslot : ∀ k, ((v.restore key (s.producer.slot key)).producer.slot k).records =
      if k = key then (s.producer.slot k).records else [] := by
    intro k
    rw [slot_restore, slot_of_not_mem (p := v.producer)
      (by rw [hempty', hempty]; exact List.not_mem_nil)]
    refine (List.append_nil _).trans ?_
    by_cases hkey : k = key
    · rw [if_pos hkey, if_pos hkey, hkey]
    · rw [if_neg hkey, if_neg hkey]
  have hstampsFail : StampsFail config s.producer (key :: others) (claimed ++ stamped) := by
    have hpasses : ClaimsPass s.producer (key :: others) (claimed ++ stamped) := by
      refine hpass.imp id fun ⟨hopened, hdone⟩ => ⟨hopened, hdone.imp id ?_⟩
      rintro ⟨q, hmem⟩
      exact ⟨q, List.mem_append_left _ hmem⟩
    refine ⟨hpasses, hidempotent, hfail.imp id ?_⟩
    rintro ⟨e', q, hmem⟩
    exact ⟨e', q, List.mem_append_right _ hmem⟩
  have hnodup := nodup_of_perm hperm
  rw [spills_iff]
  constructor
  · rintro hsurvives ⟨_, k, hk, hrecords⟩
    have hkept := hsurvives.kept k (hunacked k)
    have hother : k ≠ key := by
      rintro rfl
      exact (List.nodup_cons.mp hnodup).1 hk
    rw [hslot, if_neg hother] at hkept
    exact hrecords hkept.symm
  · intro hnone
    refine .of_unacked hunacked fun k => ?_
    rw [hslot]
    split
    · rfl
    next hne =>
      by_cases hk : k ∈ others
      · by_contra hrecords
        exact hnone ⟨hstampsFail, k, hk, fun heq => hrecords heq.symm⟩
      · refine (records_of_not_drained hperm fun hmem => ?_).symm
        exact (List.mem_cons.mp hmem).elim hne hk

theorem survives_of_undelivered {e : ClientError} {stamped : List Parcel} {flights : List Flight}
    {outcomes : List (Except ClientError Int64)} {new : ProducerLog}
    (hperm : keys.Perm s.producer.pending.keys) (hkeys : keys ≠ [])
    (hclaims : Claims config okExec okDrop keys (s.drain keys).2 (some (.ok ())) u)
    (hstamps : StampsAll config okExec okDrop (s.drain keys).1 [] u (some (.ok stamped)) v)
    (hdeliver : v.deliver codecs config stamped flights = some (outcomes, w))
    (hlog : (poisoned (settled w (stamped.zip outcomes)) e).log = s.log ++ new) :
    Survives (fun key => (s.producer.slot key).records) new
      (poisoned (settled w (stamped.zip outcomes)) e).producer ∧
        ¬ Spills config s.producer new := by
  obtain ⟨hempty, claimed, hclaimed, hnotAck⟩ := hclaims.buffers
  obtain ⟨hmap, hempty', ⟨told, htold, hnotAck'⟩, hsteady⟩ := stampsAll_ok hstamps rfl
  obtain ⟨hproducer, hlength, delivered, hdelivered, hacked⟩ := deliver_log hdeliver
  obtain ⟨delivered', hdelivered', hquiet⟩ :=
    deliver_tells (P := fun event => ∀ answer, event ≠ .identified answer)
      (fun _ _ _ _ heq => by cases heq) (fun _ _ _ heq => by cases heq)
      (fun _ _ _ heq => by cases heq) hdeliver
  obtain rfl := List.append_cancel_left (hdelivered.symm.trans hdelivered')
  rw [List.map_nil, List.nil_append] at hmap
  have hnew : new = (.drained keys, (s.drain keys).2.producer) ::
    (claimed ++ told ++ delivered) := by
    have hall : (poisoned (settled w (stamped.zip outcomes)) e).log =
        (s.drain keys).2.log ++ (claimed ++ told ++ delivered) := by
      refine log_settled.trans ?_
      rw [hdelivered, htold, hclaimed, List.append_assoc, List.append_assoc, List.append_assoc]
    refine List.append_cancel_left (hlog.symm.trans (hall.trans ?_))
    exact List.append_assoc s.log [(.drained keys, (s.drain keys).2.producer)]
      (claimed ++ told ++ delivered)
  subst hnew
  have hackedIn : ∀ k, AckedIn ((.drained keys, (s.drain keys).2.producer) ::
      (claimed ++ told ++ delivered)) k ↔ AckedIn delivered k := by
    intro k
    constructor
    · rintro ⟨records, p, hmem⟩
      rcases List.mem_cons.mp hmem with heq | hmem
      · cases heq
      rcases List.mem_append.mp hmem with hmem | hmem
      · rcases List.mem_append.mp hmem with hmem | hmem
        · obtain ⟨_, _, heq⟩ := hnotAck _ hmem
          cases heq
        · obtain ⟨_, heq⟩ := hnotAck' _ hmem
          cases heq
      · exact ⟨records, p, hmem⟩
    · rintro ⟨records, p, hmem⟩
      exact ⟨records, p, List.mem_cons_of_mem _ (List.mem_append_right _ hmem)⟩
  have hzipKeys := keys_zip_outcomes hstamps hlength
  have hnodup : ((stamped.zip outcomes).map fun result => result.1.key).Nodup := by
    rw [hzipKeys]
    exact nodup_of_perm hperm
  have hwempty : w.producer.pending = ∅ := by
    rw [hproducer, hempty', hempty]
    rfl
  refine ⟨⟨fun k hk => ?_, fun k hk => ?_⟩, fun hspills => ?_⟩
  · obtain ⟨result, hmem, rfl, offset, hoffset⟩ := (hacked k).mp ((hackedIn k).mp hk)
    have hothers : ∀ r ∈ stamped.zip outcomes, r.1.key = result.1.key →
        ∃ offset, r.2 = Except.ok offset := by
      intro r hr heq
      obtain rfl := List.inj_on_of_nodup_map hnodup hr hmem heq
      exact ⟨offset, hoffset⟩
    refine (lookup_settled hothers).trans ?_
    rw [hwempty]
    rfl
  · have hnotOk : ∀ r ∈ stamped.zip outcomes, r.1.key = k → ¬ ∃ offset, r.2 = Except.ok offset :=
      fun r hr hkey hok => hk ((hackedIn k).mpr ((hacked k).mpr ⟨r, hr, hkey, hok⟩))
    by_cases hmem : k ∈ keys
    · rw [← hzipKeys] at hmem
      obtain ⟨⟨parcel, outcome⟩, hresult, rfl⟩ := List.mem_map.mp hmem
      cases outcome with
      | ok offset => exact absurd ⟨offset, rfl⟩ (hnotOk _ hresult rfl)
      | error e' =>
          refine (slot_settled hnodup hresult).trans ?_
          rw [slot_of_not_mem (p := w.producer) (by rw [hwempty]; exact List.not_mem_nil)]
          refine (List.append_nil _).trans ?_
          have hbatch : (parcel.key, parcel.pending) ∈ (s.drain keys).1 := by
            rw [← hmap]
            exact List.mem_map.mpr ⟨parcel, (List.of_mem_zip hresult).1, rfl⟩
          obtain ⟨k', _, heq⟩ := List.mem_map.mp hbatch
          obtain ⟨hkey, hpending⟩ := Prod.mk.inj heq
          rw [← hpending, ← hkey]
    · have hnone : ∀ r ∈ stamped.zip outcomes, r.1.key = k → ∃ offset, r.2 = Except.ok offset := by
        intro r hr hkey
        rw [← hzipKeys] at hmem
        exact absurd (List.mem_map.mpr ⟨r, hr, hkey⟩) hmem
      have hlookup := lookup_settled (s := w) hnone
      rw [hwempty] at hlookup
      change (((settled w (stamped.zip outcomes)).producer.pending.lookup k).getD .default).records
        = _
      rw [hlookup, records_of_not_drained hperm hmem]
      rfl
  · obtain ⟨⟨_, hidempotent, hfail⟩, _⟩ := spills_iff.mp hspills
    have hbatches : (s.drain keys).1 ≠ [] := by
      cases keys with
      | nil => exact absurd rfl hkeys
      | cons _ _ => exact fun heq => (by cases heq)
    rcases hfail with hacks | ⟨e', q, hmem⟩
    · exact hacks (hsteady hbatches hidempotent).1
    · rcases List.mem_append.mp hmem with hmem | hmem
      · rcases List.mem_append.mp hmem with hmem | hmem
        · obtain ⟨_, _, heq⟩ := hnotAck _ hmem
          cases heq
        · obtain ⟨_, heq⟩ := hnotAck' _ hmem
          cases heq
      · exact hquiet _ hmem _ rfl

theorem slot_removed (key' : PartitionKey) :
    ((s.remove key).2.producer.slot key').records =
      if key' = key then [] else (s.producer.slot key').records := by
  change ((((s.producer.pending.erase key).lookup key').getD .default).records) = _
  by_cases hkey : key' = key
  · subst hkey
    rw [AList.lookup_erase, if_pos rfl]
    rfl
  · rw [AList.lookup_erase_ne hkey, if_neg hkey]
    rfl

theorem slot_removed_restored (hpending : u.producer.pending = (s.remove key).2.producer.pending)
    (key' : PartitionKey) :
    ((u.restore key (s.producer.slot key)).producer.slot key').records =
      (s.producer.slot key').records := by
  have hslot : (u.producer.slot key').records = ((s.remove key).2.producer.slot key').records := by
    rw [slot, slot, hpending]
  rw [slot_restore, hslot, slot_removed]
  by_cases hkey : key' = key
  · rw [if_pos hkey, if_pos hkey, hkey, List.append_nil]
  · rw [if_neg hkey, if_neg hkey, List.nil_append]

theorem NotAck.of_claims {out : Option (Except ClientError Unit)}
    (h : Claims config okExec okDrop keys s out t) : Tells NotAck s t :=
  h.buffers.2.mono fun _ ⟨_, _, heq⟩ _ _ hacked => by rw [heq] at hacked; cases hacked

theorem NotAck.of_stamps {n : Nat} {out : Option (Except ClientError (Option BatchStamp))}
    (h : Stamps config okExec okDrop key n s out t) : Tells NotAck s t :=
  h.buffers.2.mono fun _ ⟨_, heq, _⟩ _ _ hacked => by rw [heq] at hacked; cases hacked

/-- A failed flush of one partition acknowledges nothing, and has every record back. -/
theorem survives_of_flushesPartition {e : ClientError}
    (h : FlushesPartition codecs config okExec okDrop key s (some (.error e)) t) :
    Tells NotAck s t ∧ ∀ k, (t.producer.slot k).records = (s.producer.slot k).records := by
  have hremoved : Tells NotAck s (s.remove key).2 := .of_eq rfl
  cases h with
  | unclaimed _ u hclaims =>
      have hunacked := hremoved.trans (NotAck.of_claims hclaims)
      exact ⟨hunacked, slot_removed_restored hclaims.buffers.1⟩
  | unstamped _ u v hclaims hstamps =>
      have hunacked := hremoved.trans ((NotAck.of_claims hclaims).trans (NotAck.of_stamps hstamps))
      exact ⟨hunacked, slot_removed_restored (hstamps.buffers.1.trans hclaims.buffers.1)⟩
  | failed stamp _ u v w hclaims hstamps hdelivers =>
      obtain ⟨hproducer, hunacked⟩ := hdelivers.unacked
      refine ⟨hremoved.trans ((NotAck.of_claims hclaims).trans
        ((NotAck.of_stamps hstamps).trans hunacked)), ?_⟩
      refine slot_removed_restored
        (u := w.setProducer (w.producer.rewind key stamp)) ?_
      have hpending : w.producer.pending = (s.remove key).2.producer.pending := by
        rw [hproducer, hstamps.buffers.1, hclaims.buffers.1]
      rw [← hpending]
      cases stamp <;> rfl

def withRecord (p : Producer) (key : PartitionKey) (record : Record) (key' : PartitionKey) :
    List Record :=
  if key' = key then (p.slot key').records ++ [record] else (p.slot key').records

theorem slot_pushed (key' : PartitionKey) :
    ((pushed s key record).producer.slot key').records = withRecord s.producer key record key' := by
  change ((((s.producer.pending.insert key _).lookup key').getD .default).records) = _
  unfold withRecord
  by_cases hkey : key' = key
  · subst hkey
    rw [AList.lookup_insert, if_pos rfl]
    rfl
  · rw [AList.lookup_insert_ne hkey, if_neg hkey]
    rfl

/-- A failed enqueue loses nothing, and a failed flush does where it spills. -/
theorem failed_survives_iff (codecs : Codecs) (config : ProducerConfig) (s t : ProducerWorld)
    (e : ClientError) (new : ProducerLog) (hlog : t.log = s.log ++ new) :
    (∀ key record, (producerService codecs config).Ends (enqueue config key record).run s
        (some (.error e)) t → Survives (withRecord s.producer key record) new t.producer) ∧
    ((producerService codecs config).Ends (flush config).run s (some (.error e)) t →
      (Survives (fun key => (s.producer.slot key).records) new t.producer ↔
        ¬ Spills config s.producer new)) := by
  refine ⟨fun key record h => ?_, fun h => ?_⟩
  · rw [← Service.under_true (S := producerService codecs config)] at h
    cases ends_enqueue h with
    | failed _ _ hflush =>
        obtain ⟨⟨new', hnew', hnotAck⟩, hslots⟩ := survives_of_flushesPartition hflush
        obtain rfl := List.append_cancel_left (hlog.symm.trans hnew')
        exact .of_unacked (fun k => not_ackedIn_of_notAck hnotAck)
          fun k => (hslots k).trans (slot_pushed k)
  · rw [← Service.under_true (S := producerService codecs config)] at h
    cases ends_flush h with
    | unclaimed keys _ u hperm _ hclaims =>
        obtain ⟨hsurvives, hspills⟩ := survives_of_unclaimed hperm hclaims hlog
        exact iff_of_true hsurvives hspills
    | unstamped keys _ u _ hperm _ hclaims hstamps =>
        exact survives_iff_of_unstamped hperm hclaims hstamps hlog
    | failed keys stamped flights outcomes worst u v w hperm hkeys hclaims hstamps _ hdeliver _ =>
        obtain ⟨hsurvives, hspills⟩ :=
          survives_of_undelivered hperm hkeys hclaims hstamps hdeliver hlog
        exact iff_of_true hsurvives hspills

/-- A record in each of two partitions, and a broker that issues no id. -/
def twoBuffered : ProducerWorld :=
  pushed (pushed (.fresh .default) ("t", 0) Record.minimal) ("t", 1) Record.minimal

def refused {α : Type} (code : ErrorCode) : Answer α :=
  { sent := true, applied := false, result := .error (.broker code) }

def spillTurns : List (Turn ProducerChoice) :=
  [.go (.order [("t", 0), ("t", 1)]), .go .go, .go .go,
    .go (.identities [refused ⟨31⟩]), .go .go]

def drainsOne : ProducerEvent → Bool
  | .drained keys => keys.tail = []
  | _ => true

def acknowledges : ProducerEvent → Bool
  | .acked _ _ => true
  | _ => false

theorem failed_survives_once : ∃ s t new, ∃ e,
    (producerService Codecs.stored .default).Ends (flush ProducerConfig.default).run s
      (some (.error e)) t ∧
    Survives (fun key => (s.producer.slot key).records) new t.producer := by
  have hrun : ((producerService Codecs.stored .default).replay
      [.go (.order [("t", 0)]), .go .go, .go .go, .go (.identities [refused ⟨31⟩]), .go .go]
      (flush ProducerConfig.default).run
      (pushed (.fresh .default) ("t", 0) Record.minimal)).map
        (fun out => out.1.any (fun r => !r.isOk) && (out.2.log.length = 2 &&
        out.2.log.all fun entry => drainsOne entry.1)) = some true := by
    decide
  obtain ⟨⟨out, t⟩, hreplay, hout⟩ := Option.map_eq_some_iff.mp hrun
  cases out with
  | none => cases hout
  | some r =>
      cases r with
      | ok _ => cases hout
      | error e =>
          have hends := Ends.of_replay hreplay
          refine ⟨_, t, t.log, e, hends, ((failed_survives_iff Codecs.stored .default _ t e t.log
            rfl).2 hends).mpr ?_⟩
          rintro ⟨keys, q, rest, hlog, _, key, hkey, _⟩
          obtain ⟨_, hall⟩ := Bool.and_eq_true_iff.mp (Bool.and_eq_true_iff.mp hout).2
          have hentry := (List.all_eq_true.mp hall) _ (hlog ▸ List.mem_cons_self)
          rw [of_decide_eq_true hentry] at hkey
          cases hkey

theorem not_failed_survives : ¬ ∀ (codecs : Codecs) (config : ProducerConfig)
    (s t : ProducerWorld) (e : ClientError) (new : ProducerLog), t.log = s.log ++ new →
    (∀ key record, (producerService codecs config).Ends (enqueue config key record).run s
        (some (.error e)) t → Survives (withRecord s.producer key record) new t.producer) ∧
    ((producerService codecs config).Ends (flush config).run s (some (.error e)) t →
      Survives (fun key => (s.producer.slot key).records) new t.producer) := by
  intro h
  have hrun : ((producerService Codecs.stored .default).replay spillTurns
      (flush ProducerConfig.default).run twoBuffered).map
        (fun out => out.1.any (fun r => !r.isOk) &&
        ((out.2.producer.slot ("t", 1)).records.isEmpty &&
          out.2.log.all fun entry => !acknowledges entry.1)) = some true := by
    decide
  obtain ⟨⟨out, t⟩, hreplay, hout⟩ := Option.map_eq_some_iff.mp hrun
  cases out with
  | none => cases hout
  | some r =>
      cases r with
      | ok _ => cases hout
      | error e =>
          obtain ⟨hempty, hall⟩ := Bool.and_eq_true_iff.mp (Bool.and_eq_true_iff.mp hout).2
          have hsurvives := (h Codecs.stored .default twoBuffered t e t.log rfl).2
            (Ends.of_replay hreplay)
          have hkept := hsurvives.kept ("t", 1) fun ⟨records, p, hmem⟩ => (by
            have hentry := (List.all_eq_true.mp hall) _ hmem
            cases hentry)
          rw [List.isEmpty_iff.mp hempty] at hkept
          exact absurd hkept (by decide)

end Failed

end Odradek.Client
