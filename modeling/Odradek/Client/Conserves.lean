import Odradek.Client.FailedFlush
import Odradek.Client.Transactional

/-!
Where the records of a transaction are: acknowledged since it was begun, held by a
call, or in the buffer, in this order. The parts of an enqueue, a produce and a
flush move them along and drop none.
-/

namespace Odradek.Client

open Library Library.Service Odradek.Protocol ProducerWorld Producer

section Accounts

def sinceBegan (log : ProducerLog) : ProducerLog :=
  log.foldl (fun since entry =>
    match entry.1 with
    | .began => []
    | _ => since ++ [entry]) []

def acceptedBy (key : PartitionKey) (entry : ProducerEvent × Producer) : List Record :=
  match entry.1 with
  | .accepted k record => if k = key then [record] else []
  | _ => []

def ackedBy (key : PartitionKey) (entry : ProducerEvent × Producer) : List Record :=
  match entry.1 with
  | .acked k records => if k = key then records else []
  | _ => []

def acceptedSince (log : ProducerLog) (key : PartitionKey) : List Record :=
  (sinceBegan log).flatMap (acceptedBy key)

def ackedSince (log : ProducerLog) (key : PartitionKey) : List Record :=
  (sinceBegan log).flatMap (ackedBy key)

/-- A transaction that was committed has every record its enqueues accepted. -/
def CommittedLog (log : ProducerLog) : Prop :=
  ∀ before after p, log = before ++ (ProducerEvent.committed, p) :: after →
    ∀ key, (acceptedSince before key).Sublist (ackedSince before key)

def heldOf (w : ProducerWorld) (key : PartitionKey) : List Record :=
  (w.held.filter fun entry => entry.1 = key).flatMap (·.2)

/-- All there is of a partition's records. -/
def account (w : ProducerWorld) (key : PartitionKey) : List Record :=
  ackedSince w.log key ++ (heldOf w key ++ (w.producer.slot key).records)

variable {log : ProducerLog} {event : ProducerEvent} {p : Producer} {key : PartitionKey}

theorem sinceBegan_append (h : event ≠ .began) :
    sinceBegan (log ++ [(event, p)]) = sinceBegan log ++ [(event, p)] := by
  rw [sinceBegan, List.foldl_append]
  cases event with
  | began => exact absurd rfl h
  | _ => rfl

theorem acceptedSince_append (h : event ≠ .began) :
    acceptedSince (log ++ [(event, p)]) key = acceptedSince log key ++
      acceptedBy key (event, p) := by
  rw [acceptedSince, sinceBegan_append h, List.flatMap_append, List.flatMap_singleton]
  rfl

theorem ackedSince_append (h : event ≠ .began) :
    ackedSince (log ++ [(event, p)]) key = ackedSince log key ++ ackedBy key (event, p) := by
  rw [ackedSince, sinceBegan_append h, List.flatMap_append, List.flatMap_singleton]
  rfl

theorem acceptedSince_began : acceptedSince (log ++ [(.began, p)]) key = [] := by
  rw [acceptedSince, sinceBegan, List.foldl_append]
  rfl

theorem CommittedLog.append (h : CommittedLog log)
    (hnew : event = .committed → ∀ key, (acceptedSince log key).Sublist (ackedSince log key)) :
    CommittedLog (log ++ [(event, p)]) := by
  intro before after q heq
  rcases append_singleton_eq_append_cons heq with ⟨after', hlog⟩ | ⟨rfl, hentry, _⟩
  · exact h before after' q hlog
  · cases hentry
    exact hnew rfl

end Accounts

section Conserves

variable {codecs : Codecs} {config : ProducerConfig}
  {okExec okDrop : ProducerOp → ProducerChoice → ProducerWorld → Bool}
  {s t u v w : ProducerWorld} {key : PartitionKey} {keys : List PartitionKey} {record : Record}
  {records : List Record} {parcel : Parcel} {parcels : List Parcel} {pending : PendingBatch}

structure Conserves (s t : ProducerWorld) : Prop where
  total : ∀ key, (account s key).Sublist (account t key)
  accepted : ∀ key, acceptedSince t.log key = acceptedSince s.log key

namespace Conserves

theorem refl : Conserves s s := ⟨fun _ => .refl _, fun _ => rfl⟩

theorem trans (h : Conserves s t) (h' : Conserves t u) : Conserves s u :=
  ⟨fun key => (h.total key).trans (h'.total key),
    fun key => (h'.accepted key).trans (h.accepted key)⟩

theorem of_total (hlog : t.log = s.log) (h : ∀ key, account t key = account s key) :
    Conserves s t :=
  ⟨fun key => by rw [h key], fun key => by rw [hlog]⟩

theorem of_eq (hlog : t.log = s.log) (hheld : t.held = s.held)
    (hpending : t.producer.pending = s.producer.pending) : Conserves s t := by
  refine of_total hlog fun key => ?_
  rw [account, account, hlog, heldOf, heldOf, hheld, slot, slot, hpending]

/-- An event that is not one of the account. -/
def Silent (event : ProducerEvent) : Prop :=
  event ≠ .began ∧ ∀ key p, acceptedBy key (event, p) = [] ∧ ackedBy key (event, p) = []

theorem noted {event : ProducerEvent} (h : Silent event) : Conserves s (s.note event) := by
  obtain ⟨hbegan, hnone⟩ := h
  refine ⟨fun key => ?_, fun key => ?_⟩
  · change (account s key).Sublist (ackedSince (s.log ++ [(event, s.producer)]) key ++ _)
    rw [ackedSince_append hbegan, (hnone key s.producer).2, List.append_nil]
    exact .refl _
  · change acceptedSince (s.log ++ [(event, s.producer)]) key = _
    rw [acceptedSince_append hbegan, (hnone key s.producer).1, List.append_nil]

theorem silent_claimed {answer : Except ClientError Unit} : Silent (.claimed keys answer) :=
  ⟨fun h => (by cases h), fun _ _ => ⟨rfl, rfl⟩⟩

theorem silent_identified {answer : Except ClientError ProducerIdentity} :
    Silent (.identified answer) :=
  ⟨fun h => (by cases h), fun _ _ => ⟨rfl, rfl⟩⟩

theorem silent_delivered {answer : Except ClientError Int64} : Silent (.delivered key answer) :=
  ⟨fun h => (by cases h), fun _ _ => ⟨rfl, rfl⟩⟩

theorem silent_drained : Silent (.drained keys) :=
  ⟨fun h => (by cases h), fun _ _ => ⟨rfl, rfl⟩⟩

theorem silent_sent {set : Bytes} {applied : Bool} : Silent (.sent parcel set applied) :=
  ⟨fun h => (by cases h), fun _ _ => ⟨rfl, rfl⟩⟩

theorem silent_ended {committed : Bool} {answer : Except ClientError Unit} :
    Silent (.ended committed answer) :=
  ⟨fun h => (by cases h), fun _ _ => ⟨rfl, rfl⟩⟩

theorem silent_offsets {answer : Except ClientError Unit} : Silent (.offsets answer) :=
  ⟨fun h => (by cases h), fun _ _ => ⟨rfl, rfl⟩⟩

theorem silent_initialized {identity : ProducerIdentity} : Silent (.initialized identity) :=
  ⟨fun h => (by cases h), fun _ _ => ⟨rfl, rfl⟩⟩

end Conserves

section Held

/-- A call that lets go of a partition holds nothing of it. -/
theorem heldOf_letGo (key' : PartitionKey) :
    heldOf (s.letGo key) key' = if key' = key then [] else heldOf s key' := by
  unfold heldOf letGo
  rw [List.filter_filter]
  by_cases hkey : key' = key
  · rw [if_pos hkey]
    have hnone :
      (s.held.filter fun entry => decide (entry.1 = key') && decide (entry.1 ≠ key)) = [] := by
      refine List.filter_eq_nil_iff.mpr fun entry _ => ?_
      rw [hkey]
      by_cases hentry : entry.1 = key <;> simp [hentry]
    rw [hnone]
    rfl
  · rw [if_neg hkey]
    congr 1
    refine List.filter_congr fun entry _ => ?_
    by_cases hentry : entry.1 = key'
    · simp [hentry, hkey]
    · simp [hentry]

theorem heldOf_remove (key' : PartitionKey) :
    heldOf (s.remove key).2 key' = if key' = key then (s.producer.slot key).records else [] := by
  change ((List.filter (fun entry => decide (entry.1 = key'))
    [(key, (s.producer.slot key).records)]).flatMap
    (·.2)) = _
  by_cases hkey : key' = key
  · subst hkey
    simp
  · rw [if_neg hkey, List.filter_cons_of_neg (by simpa using fun h => hkey h.symm)]
    rfl

/-- What was buffered is in the drained hands. -/
theorem heldOf_drain (hnodup : keys.Nodup) (key : PartitionKey) :
    heldOf (s.drain keys).2 key = if key ∈ keys then (s.producer.slot key).records else [] := by
  have hheld : (s.drain keys).2.held = keys.map fun k => (k, (s.producer.slot k).records) :=
    List.map_map
  unfold heldOf
  rw [hheld]
  clear hheld
  induction keys with
  | nil => rfl
  | cons k rest ih =>
      obtain ⟨hfresh, hrest⟩ := List.nodup_cons.mp hnodup
      have hothers := ih hrest
      by_cases hkey : k = key
      · subst hkey
        rw [if_neg hfresh] at hothers
        rw [List.map_cons, List.filter_cons_of_pos (by simp only [decide_true]), List.flatMap_cons,
          hothers, List.append_nil, if_pos List.mem_cons_self]
      · rw [List.map_cons, List.filter_cons_of_neg (by simpa using hkey), hothers]
        simp only [List.mem_cons, Ne.symm hkey, false_or]

theorem heldOf_nil_of_empty (h : w.held.all fun entry => entry.2.isEmpty) (key : PartitionKey) :
    heldOf w key = [] := by
  refine List.flatMap_eq_nil_iff.mpr fun entry hmem => ?_
  exact List.isEmpty_iff.mp ((List.all_eq_true.mp h) entry (List.mem_filter.mp hmem).1)

def EmptyHanded (w : ProducerWorld) : Prop := ∀ key, heldOf w key = []

theorem emptyHanded_abandoned : EmptyHanded w.abandoned := fun _ => rfl

theorem Conserves.abandoned (hempty : EmptyHanded w) : Conserves w w.abandoned := by
  refine .of_total rfl fun key => ?_
  rw [account, account, hempty key, emptyHanded_abandoned key]
  rfl

theorem Conserves.restored (h : heldOf w key = pending.records) :
    Conserves w (w.restore key pending) := by
  refine .of_total rfl fun k => ?_
  have hheld : heldOf (w.restore key pending) k = if k = key then [] else heldOf w k :=
    heldOf_letGo k
  rw [account, account, hheld, slot_restore]
  by_cases hkey : k = key
  · rw [if_pos hkey, if_pos hkey, hkey, h]
    rfl
  · rw [if_neg hkey, if_neg hkey]
    rfl

/-- Restored batches are buffered again, and held no more. -/
theorem Conserves.restoredAll {batches : List (PartitionKey × PendingBatch)}
    (hnodup : (batches.map (·.1)).Nodup)
    (h : ∀ batch ∈ batches, heldOf w batch.1 = batch.2.records) :
    Conserves w (restoredAll w batches) ∧
      ∀ k, heldOf (Client.restoredAll w batches) k =
        if k ∈ batches.map (·.1) then [] else heldOf w k := by
  induction batches generalizing w with
  | nil => exact ⟨.refl, fun _ => rfl⟩
  | cons batch rest ih =>
      obtain ⟨hfresh, hrest⟩ := List.nodup_cons.mp hnodup
      have hheld : ∀ k, heldOf (w.restore batch.1 batch.2) k =
          if k = batch.1 then [] else heldOf w k := heldOf_letGo
      obtain ⟨hconserves, hheld'⟩ := ih (w := w.restore batch.1 batch.2) hrest fun b hb => by
        rw [hheld, if_neg fun heq => hfresh (List.mem_map.mpr ⟨b, hb, heq⟩)]
        exact h b (List.mem_cons_of_mem _ hb)
      refine ⟨(Conserves.restored (h batch List.mem_cons_self)).trans hconserves, fun k => ?_⟩
      refine (hheld' k).trans ?_
      rw [hheld, List.map_cons]
      by_cases hmem : k ∈ rest.map (·.1)
      · rw [if_pos hmem, if_pos (List.mem_cons_of_mem _ hmem)]
      · rw [if_neg hmem]
        simp only [List.mem_cons, hmem, or_false]

end Held

section Flights

structure Flown (parcel : Parcel) (acked : Bool) (s t : ProducerWorld) : Prop where
  producer : t.producer = s.producer
  held : ∀ k, heldOf t k = if acked = true ∧ k = parcel.key then [] else heldOf s k
  acked : ∀ k, ackedSince t.log k =
    ackedSince s.log k ++ if acked = true ∧ k = parcel.key then parcel.pending.records else []
  accepted : ∀ k, acceptedSince t.log k = acceptedSince s.log k

theorem Flown.refl : Flown parcel false s s :=
  ⟨rfl, fun _ => rfl, fun _ => (List.append_nil _).symm, fun _ => rfl⟩

theorem Flown.after (h : Flown parcel false s t) {acked : Bool} (h' : Flown parcel acked t u) :
    Flown parcel acked s u := by
  refine ⟨h'.producer.trans h.producer, fun k => ?_, fun k => ?_, fun k => ?_⟩
  · rw [h'.held, h.held, if_neg (c := false = true ∧ k = parcel.key) fun hand => (by cases hand.1)]
  · rw [h'.acked, h.acked, if_neg (c := false = true ∧ k = parcel.key) fun hand =>
      (by cases hand.1),
      List.append_nil]
  · exact (h'.accepted k).trans (h.accepted k)

theorem flown_sent {set : Bytes} {a : Answer Int64} :
    Flown parcel false s (if a.sent then s.note (.sent parcel set a.applied) else s) := by
  split
  · have hsilent : Conserves s (s.note (.sent parcel set a.applied)) :=
      .noted Conserves.silent_sent
    refine ⟨rfl, fun _ => rfl, fun k => ?_, hsilent.accepted⟩
    exact (ackedSince_append fun h => (by cases h)).trans (by rfl)
  · exact .refl

theorem flown_attempt {set : Bytes} {a : Answer Int64} :
    Flown parcel a.result.isOk s (s.attempt parcel set a) := by
  have hsent : Flown parcel false s (if a.sent then s.note (.sent parcel set a.applied) else s) :=
    flown_sent
  refine hsent.after ?_
  unfold attempt
  dsimp only
  clear hsent
  generalize (if a.sent then s.note (.sent parcel set a.applied) else s) = w
  cases a.result.isOk with
  | false => exact .refl
  | true =>
      refine ⟨rfl, fun k => ?_, fun k => ?_, fun k => ?_⟩
      · have hheld : heldOf (w.letGo parcel.key) k = if k = parcel.key then [] else heldOf w k :=
          heldOf_letGo k
        refine Eq.trans hheld ?_
        simp only [true_and]
      · refine (ackedSince_append fun h => (by cases h)).trans ?_
        simp only [ackedBy, true_and, eq_comm (a := k)]
        rfl
      · refine (acceptedSince_append fun h => (by cases h)).trans ?_
        exact List.append_nil _

theorem flown_errors {set : Bytes} {answers : List (Answer Int64)}
    (h : ∀ a ∈ answers, a.result.isOk = false) :
    Flown parcel false s (answers.foldl (fun w a => w.attempt parcel set a) s) := by
  induction answers generalizing s with
  | nil => exact .refl
  | cons a rest ih =>
      have hattempt : Flown parcel a.result.isOk s (s.attempt parcel set a) := flown_attempt
      rw [h a List.mem_cons_self] at hattempt
      exact hattempt.after (ih fun b hb => h b (List.mem_cons_of_mem _ hb))

theorem flown_answers {set : Bytes} {answers : List (Answer Int64)}
    {outcome : Except ClientError Int64} (h : verdict config answers = some outcome) :
    Flown parcel outcome.isOk s (answers.foldl (fun w a => w.attempt parcel set a) s) := by
  obtain ⟨rfl, e, rfl⟩ | ⟨front, a, rfl, rfl, _, herrors⟩ := answers_of_verdict h
  · exact .refl
  · rw [List.foldl_append]
    refine (flown_errors fun b hb => ?_).after flown_attempt
    obtain ⟨e, he⟩ := herrors b hb
    rw [he]
    rfl

theorem flown_waiting {set : Bytes} {answers : List (Answer Int64)}
    (h : waiting config answers = true) :
    Flown parcel false s (answers.foldl (fun w a => w.attempt parcel set a) s) := by
  refine flown_errors fun a ha => ?_
  obtain ⟨_, htrying⟩ := Bool.and_eq_true_iff.mp h
  obtain ⟨_, hretry⟩ := Bool.and_eq_true_iff.mp htrying
  have hone := (List.all_eq_true.mp hretry) a.result (List.mem_map.mpr ⟨a, ha, rfl⟩)
  cases hresult : a.result with
  | error e => rfl
  | ok offset =>
      rw [hresult] at hone
      cases hone

theorem flown_landing {flight : Flight} {outcome : Except ClientError Int64}
    (h : landing codecs config parcel flight = some outcome) :
    Flown parcel outcome.isOk s (s.fly codecs config parcel flight) := by
  unfold landing at h
  unfold fly
  cases hset : recordSet codecs config parcel flight.nowMs with
  | error e =>
      simp only [hset] at h ⊢
      obtain ⟨_, heq⟩ := Option.ite_none_right_eq_some.mp h
      cases heq
      exact .refl
  | ok set =>
      simp only [hset] at h ⊢
      exact flown_answers h

theorem flown_cut {flight : Flight}
    (h : ((landing codecs config parcel flight).isSome || waiting config flight.answers) = true) :
    ∃ acked, Flown parcel acked s (s.fly codecs config parcel flight) := by
  rcases Bool.or_eq_true_iff.mp h with hlanding | hwaiting
  · obtain ⟨outcome, hlanding⟩ := Option.isSome_iff_exists.mp hlanding
    exact ⟨_, flown_landing hlanding⟩
  · unfold fly
    split
    · exact ⟨false, .refl⟩
    · exact ⟨false, flown_waiting hwaiting⟩

/-- A batch that is held, or was never in a buffer, is accounted for in flight. -/
theorem Flown.conserves {acked : Bool} (h : Flown parcel acked s t)
    (hheld : heldOf s parcel.key = parcel.pending.records ∨ heldOf s parcel.key = []) :
    Conserves s t := by
  refine ⟨fun k => ?_, h.accepted⟩
  rw [account, account, h.held, h.acked, h.producer]
  by_cases hkey : acked = true ∧ k = parcel.key
  · rw [if_pos hkey, if_pos hkey, hkey.2, List.nil_append, List.append_assoc]
    rcases hheld with hheld | hheld
    · rw [hheld]
    · rw [hheld, List.nil_append]
      exact List.Sublist.append_left (List.sublist_append_right _ _) _
  · rw [if_neg hkey, if_neg hkey, List.append_nil]

end Flights

section Deliveries

/-- Deliveries settle each parcel once: acknowledged, or held as before. -/
theorem conserves_deliver {flights : List Flight} {outcomes : List (Except ClientError Int64)}
    (hnodup : (parcels.map (·.key)).Nodup)
    (hheld : ∀ parcel ∈ parcels, heldOf s parcel.key = parcel.pending.records)
    (h : s.deliver codecs config parcels flights = some (outcomes, t)) :
    Conserves s t ∧
      (∀ result ∈ parcels.zip outcomes, heldOf t result.1.key =
        if result.2.isOk then [] else result.1.pending.records) ∧
      ∀ k, k ∉ parcels.map (·.key) → heldOf t k = heldOf s k := by
  induction parcels generalizing s flights outcomes with
  | nil =>
      obtain ⟨_, rfl, rfl⟩ := deliver_nil h
      exact ⟨.refl, fun _ hmem => (by cases hmem), fun _ _ => rfl⟩
  | cons parcel rest ih =>
      obtain ⟨hfresh, hrest⟩ := List.nodup_cons.mp hnodup
      obtain ⟨flight, flights', outcome, outcomes', _, hlanding, hdeliver, rfl⟩ := deliver_cons h
      have hflown : Flown parcel outcome.isOk s (s.fly codecs config parcel flight) :=
        flown_landing hlanding
      have hnoted : Conserves (s.fly codecs config parcel flight)
          ((s.fly codecs config parcel flight).note (.delivered parcel.key outcome)) :=
        .noted Conserves.silent_delivered
      have hothers : ∀ k, k ≠ parcel.key →
          heldOf ((s.fly codecs config parcel flight).note (.delivered parcel.key outcome)) k =
            heldOf s k := fun k hkey =>
        (hflown.held k).trans (if_neg fun hand => hkey hand.2)
      obtain ⟨hconserves, hresults, hleft⟩ := ih hrest (fun p hp => by
        rw [hothers _ fun heq => hfresh (List.mem_map.mpr ⟨p, hp, heq⟩)]
        exact hheld p (List.mem_cons_of_mem _ hp)) hdeliver
      refine ⟨(hflown.conserves (.inl (hheld parcel List.mem_cons_self))).trans
        (hnoted.trans hconserves), fun result hmem => ?_, fun k hk => ?_⟩
      · rcases List.mem_cons.mp hmem with rfl | hmem
        · refine (hleft parcel.key hfresh).trans ((hflown.held parcel.key).trans ?_)
          simp only [and_true, hheld parcel List.mem_cons_self]
        · exact hresults result hmem
      · rw [List.map_cons, List.mem_cons, not_or] at hk
        exact (hleft k hk.2).trans (hothers k hk.1)

theorem conserves_scatter {flights : List Flight} (hnodup : (parcels.map (·.key)).Nodup)
    (hheld : ∀ parcel ∈ parcels, heldOf s parcel.key = parcel.pending.records)
    (h : s.scatter codecs config parcels flights = some t) : Conserves s t := by
  induction parcels generalizing s flights with
  | nil =>
      obtain rfl := scatter_nil h
      exact .refl
  | cons parcel rest ih =>
      obtain ⟨hfresh, hrest⟩ := List.nodup_cons.mp hnodup
      obtain ⟨flight, flights', _, hcut, hscatter⟩ := scatter_cons h
      obtain ⟨acked, hflown⟩ := flown_cut (s := s) hcut
      refine (hflown.conserves (.inl (hheld parcel List.mem_cons_self))).trans
        (ih hrest (fun p hp => ?_) hscatter)
      rw [hflown.held, if_neg fun hand => hfresh (List.mem_map.mpr ⟨p, hp, hand.2⟩)]
      exact hheld p (List.mem_cons_of_mem _ hp)

theorem conserves_handedBack (parcel : Parcel) (h : heldOf s parcel.key = parcel.pending.records) :
    Conserves s (handedBack s parcel) ∧
      ∀ k, heldOf (handedBack s parcel) k = if k = parcel.key then [] else heldOf s k := by
  have hrewound : Conserves s (s.setProducer (s.producer.rewind parcel.key parcel.stamp)) :=
    .of_eq rfl rfl (by cases parcel.stamp <;> rfl)
  exact ⟨hrewound.trans (.restored h), heldOf_letGo⟩

/-- After the loop over the outcomes nothing of them is held. -/
theorem conserves_settled {results : List (Parcel × Except ClientError Int64)}
    (hnodup : (results.map fun result => result.1.key).Nodup)
    (hheld : ∀ result ∈ results, heldOf s result.1.key =
      if result.2.isOk then [] else result.1.pending.records) :
    Conserves s (settled s results) ∧
      ∀ k, heldOf (settled s results) k =
        if k ∈ results.map (fun result => result.1.key) then [] else heldOf s k := by
  induction results generalizing s with
  | nil => exact ⟨.refl, fun _ => rfl⟩
  | cons result rest ih =>
      obtain ⟨hfresh, hrest⟩ := List.nodup_cons.mp hnodup
      obtain ⟨parcel, outcome⟩ := result
      have hfirst := hheld _ List.mem_cons_self
      have hrestHeld := fun r hr => hheld r (List.mem_cons_of_mem _ hr)
      cases outcome with
      | ok offset =>
          obtain ⟨hconserves, hleft⟩ := ih hrest hrestHeld
          refine ⟨hconserves, fun k => (hleft k).trans ?_⟩
          rw [List.map_cons]
          by_cases hkey : k = parcel.key
          · subst hkey
            rw [if_neg hfresh, if_pos List.mem_cons_self]
            exact hfirst
          · simp only [List.mem_cons, hkey, false_or]
      | error e =>
          obtain ⟨hback, hbackHeld⟩ := conserves_handedBack parcel hfirst
          obtain ⟨hconserves, hleft⟩ := ih (s := handedBack s parcel) hrest fun r hr => by
            rw [hbackHeld, if_neg fun heq => hfresh (List.mem_map.mpr ⟨r, hr, heq⟩)]
            exact hrestHeld r hr
          refine ⟨hback.trans hconserves, fun k => (hleft k).trans ?_⟩
          rw [hbackHeld, List.map_cons]
          by_cases hkey : k = parcel.key
          · subst hkey
            rw [if_neg hfresh, if_pos rfl, if_pos List.mem_cons_self]
          · simp only [List.mem_cons, hkey, false_or, if_false]

end Deliveries

end Conserves

end Odradek.Client
