import Odradek.Client.Conserves

/-!
Calls that are dropped inside a transaction. As long as no call is dropped while it
holds records that it has drained and no broker has acknowledged, a commit that
returns `Ok` has every record the enqueues of its transaction accepted.
-/

namespace Odradek.Client

open Library Library.Service Odradek.Protocol ProducerWorld Producer

variable {codecs : Codecs} {config : ProducerConfig}
  {okExec : ProducerOp → ProducerChoice → ProducerWorld → Bool}
  {s t u v w : ProducerWorld} {key : PartitionKey} {keys : List PartitionKey} {record : Record}
  {records : List Record} {parcel : Parcel} {parcels : List Parcel} {pending : PendingBatch}

def holdsNothing (w : ProducerWorld) : Bool := w.held.all fun entry => entry.2.isEmpty

/-- Where a call is dropped it holds no record, but for those acknowledged by then. -/
def spares (codecs : Codecs) (config : ProducerConfig) :
    ProducerOp → ProducerChoice → ProducerWorld → Bool
  | .deliver parcels, .flights flights, w =>
    (w.scatter codecs config parcels flights).all holdsNothing
  | _, _, w => holdsNothing w

section Parts

/-- Claiming partitions moves no record, also where it is dropped. -/
theorem conserves_claims {out : Option (Except ClientError Unit)}
    (h : Claims config okExec (spares codecs config) keys s out t) :
    Conserves s t ∧ (∀ r, out = some r → ∀ k, heldOf t k = heldOf s k) ∧
      (out = none → EmptyHanded t) := by
  cases h with
  | unneeded _ | refused _ _ _ =>
      exact ⟨.refl, fun _ _ _ => rfl, fun hnone => (by cases hnone)⟩
  | answered txn answers answer _ _ _ _ _ =>
      refine ⟨?_, fun _ _ _ => rfl, fun hnone => (by cases hnone)⟩
      have htold : Conserves s (s.note (.claimed (s.producer.unclaimed keys) answer)) :=
        .noted Conserves.silent_claimed
      exact htold.trans (.of_eq rfl rfl (by cases answer <;> rfl))
  | dropped txn answers _ hspares =>
      have hempty : EmptyHanded s := heldOf_nil_of_empty hspares
      have hannounced : Conserves s { s with announced := s.announced || applied answers } :=
        .of_eq rfl rfl rfl
      exact ⟨hannounced.trans (.abandoned (w := { s with announced := _ }) hempty),
        fun _ hsome => (by cases hsome), fun _ => emptyHanded_abandoned⟩

theorem conserves_stamps {n : Nat} {out : Option (Except ClientError (Option BatchStamp))}
    {okDrop : ProducerOp → ProducerChoice → ProducerWorld → Bool}
    (hsteady : Steady config s.producer)
    (h : Stamps config okExec okDrop key n s out t) :
    Conserves s t ∧ (∀ k, heldOf t k = heldOf s k) ∧ ∃ stamp, out = some (.ok stamp) := by
  cases h with
  | plain _ => exact ⟨.refl, fun _ => rfl, none, rfl⟩
  | refused e hidempotent hacks =>
      have hstamps : Stamps config okExec okDrop key n s (some (.error e)) s :=
        .refused e hidempotent hacks
      exact absurd hstamps (Steady.stamps hsteady)
  | unidentified e _ hidempotent hacks hidentifies =>
      have hstamps : Stamps config okExec okDrop key n s (some (.error e)) t :=
        .unidentified e t hidempotent hacks hidentifies
      exact absurd hstamps (Steady.stamps hsteady)
  | dropped _ hidempotent _ hidentifies =>
      have hsome := (hsteady hidempotent).2
      cases hidentifies with
      | dropped _ hnone _ _ => exact absurd hnone hsome
  | stamped identity u hidempotent _ hidentifies _ =>
      have hsome := (hsteady hidempotent).2
      cases hidentifies with
      | known _ _ => exact ⟨.of_eq rfl rfl rfl, fun _ => rfl, _, rfl⟩
      | issued _ _ hnone _ _ => exact absurd hnone hsome

theorem conserves_stampsAll {batches : List (PartitionKey × PendingBatch)} {stamped : List Parcel}
    {out : Option (Except ClientError (List Parcel))}
    {okDrop : ProducerOp → ProducerChoice → ProducerWorld → Bool}
    (hsteady : Steady config s.producer)
    (h : StampsAll config okExec okDrop batches stamped s out t) :
    Conserves s t ∧ (∀ k, heldOf t k = heldOf s k) ∧ ∃ parcels, out = some (.ok parcels) := by
  induction h with
  | nil stamped _ => exact ⟨.refl, fun _ => rfl, stamped, rfl⟩
  | cons _ _ _ hstamp _ ih =>
      obtain ⟨hconserves, hheld, _⟩ := conserves_stamps hsteady hstamp
      obtain ⟨hconserves', hheld', hout⟩ := ih (steady_of_stamps hstamp)
      exact ⟨hconserves.trans hconserves', fun k => (hheld' k).trans (hheld k), hout⟩
  | failed _ _ _ hstamp =>
      obtain ⟨_, _, _, heq⟩ := conserves_stamps hsteady hstamp
      cases heq
  | dropped _ _ hstamp =>
      obtain ⟨_, _, _, heq⟩ := conserves_stamps hsteady hstamp
      cases heq

theorem conserves_remove (hempty : EmptyHanded s) : Conserves s (s.remove key).2 := by
  refine .of_total rfl fun k => ?_
  rw [account, account, heldOf_remove, slot_removed, hempty k]
  by_cases hkey : k = key
  · rw [if_pos hkey, if_pos hkey, hkey, List.append_nil]
    rfl
  · rw [if_neg hkey, if_neg hkey]
    rfl

theorem conserves_drain (hperm : keys.Perm s.producer.pending.keys) (hempty : EmptyHanded s) :
    Conserves s (s.drain keys).2 := by
  have htaken : Conserves s { s with
      producer := { s.producer with pending := ∅ }
      held := (s.drain keys).1.map fun batch => (batch.1, batch.2.records) } := by
    refine .of_total rfl fun k => ?_
    have hheld : heldOf (s.drain keys).2 k =
        if k ∈ keys then (s.producer.slot k).records else [] := heldOf_drain (nodup_of_perm hperm) k
    change ackedSince s.log k ++ (heldOf (s.drain keys).2 k ++ []) = account s k
    rw [account, hheld, hempty k, List.append_nil, List.nil_append]
    split
    · rfl
    · rw [records_of_not_drained hperm ‹_›]
  exact htaken.trans (.noted Conserves.silent_drained)

theorem conserves_delivers {out : Option (Except ClientError Int64)}
    (hheld : heldOf s parcel.key = parcel.pending.records ∨ heldOf s parcel.key = [])
    (hothers : ∀ k, k ≠ parcel.key → heldOf s k = [])
    (h : Delivers codecs config okExec (spares codecs config) parcel s out t) :
    Conserves s t ∧ (∀ k, k ≠ parcel.key → heldOf t k = []) ∧
      (out = none ∨ (∃ offset, out = some (.ok offset)) → EmptyHanded t) ∧
      (∀ e, out = some (.error e) → heldOf t parcel.key = heldOf s parcel.key) := by
  cases h with
  | landed flight outcome _ hlanding =>
      have hflown : Flown parcel outcome.isOk s (s.fly codecs config parcel flight) :=
        flown_landing hlanding
      have hnoted : Conserves (s.fly codecs config parcel flight)
          ((s.fly codecs config parcel flight).note (.delivered parcel.key outcome)) :=
        .noted Conserves.silent_delivered
      have hothers' : ∀ k, k ≠ parcel.key → heldOf (s.fly codecs config parcel flight) k = [] := by
        intro k hkey
        rw [hflown.held, if_neg fun hand => hkey hand.2]
        exact hothers k hkey
      refine ⟨(hflown.conserves hheld).trans hnoted, hothers', ?_, ?_⟩
      · rintro (hnone | ⟨offset, hok⟩) k
        · cases hnone
        · cases hok
          by_cases hkey : k = parcel.key
          · exact (hflown.held k).trans (if_pos ⟨rfl, hkey⟩)
          · exact hothers' k hkey
      · intro e herror
        cases herror
        exact (hflown.held parcel.key).trans (if_neg fun hand => (by cases hand.1))
  | dropped flight hspares hcut =>
      obtain ⟨acked, hflown⟩ := flown_cut (s := s) hcut
      have hscatter : s.scatter codecs config [parcel] [flight] =
          some (s.fly codecs config parcel flight) := if_pos hcut
      have hempty : EmptyHanded (s.fly codecs config parcel flight) := by
        refine heldOf_nil_of_empty ?_
        have hall : (s.scatter codecs config [parcel] [flight]).all holdsNothing = true := hspares
        rw [hscatter] at hall
        exact hall
      exact ⟨(hflown.conserves hheld).trans (.abandoned hempty), fun _ _ => emptyHanded_abandoned _,
        fun _ => emptyHanded_abandoned, fun _ heq => (by cases heq)⟩

end Parts

section Whole

theorem conserves_poisoned (e : ClientError) : Conserves s (poisoned s e) := .of_eq rfl rfl rfl

/-- A transactional producer that may produce has all a stamp needs. -/
theorem steady_of_claims {okDrop : ProducerOp → ProducerChoice → ProducerWorld → Bool}
    (hstate : s.producer.txnState ≠ .disabled)
    (hsteady : s.producer.txnState = .opened → Steady config s.producer)
    (h : Claims config okExec okDrop keys s (some (.ok ())) t) : Steady config t.producer := by
  have hopened : s.producer.txnState = .opened := by
    cases h with
    | unneeded hdone => exact hdone.elim (fun hdisabled => absurd hdisabled hstate) (·.1)
    | answered _ _ _ hopened _ _ _ _ => exact hopened
  intro hidempotent
  obtain ⟨hacks, hsome⟩ := hsteady hopened hidempotent
  refine ⟨hacks, ?_⟩
  rw [(Advances.of_claims h).identity hsome]
  exact hsome

/-- A flush of one partition loses nothing, and a call holds nothing after it. -/
theorem conserves_flushesPartition {out : Option (Except ClientError Delivery)}
    (hstate : s.producer.txnState ≠ .disabled) (hempty : EmptyHanded s)
    (hsteady : s.producer.txnState = .opened → Steady config s.producer)
    (h : FlushesPartition codecs config okExec (spares codecs config) key s out t) :
    Conserves s t ∧ EmptyHanded t := by
  have hremove : Conserves s (s.remove key).2 := conserves_remove hempty
  have hheld : ∀ k, heldOf (s.remove key).2 k =
      if k = key then (s.producer.slot key).records else [] := heldOf_remove
  have hrestored : ∀ {u : ProducerWorld}, Conserves s u →
      (∀ k, heldOf u k = heldOf (s.remove key).2 k) →
      Conserves s (u.restore key (s.producer.slot key)) ∧
        EmptyHanded (u.restore key (s.producer.slot key)) := by
    intro u hconserves hsame
    have hkey : heldOf u key = (s.producer.slot key).records := by
      rw [hsame, hheld, if_pos rfl]
    refine ⟨hconserves.trans (.restored hkey), fun k => (heldOf_letGo k).trans ?_⟩
    rw [hsame, hheld]
    split <;> rfl
  have hpassed : ∀ {u : ProducerWorld}, Claims config okExec (spares codecs config) [key]
      (s.remove key).2 (some (.ok ())) u → Steady config u.producer := fun hclaims =>
    steady_of_claims (s := (s.remove key).2) hstate hsteady hclaims
  have hflying : ∀ {u v : ProducerWorld} {stamp : Option BatchStamp},
      Claims config okExec (spares codecs config) [key] (s.remove key).2 (some (.ok ())) u →
      Stamps config okExec (spares codecs config) key (s.producer.slot key).records.length u
        (some (.ok stamp)) v →
      Conserves s v ∧ ∀ k, heldOf v k = heldOf (s.remove key).2 k := by
    intro u v stamp hclaims hstamps
    obtain ⟨hclaimed, hsame, _⟩ := conserves_claims hclaims
    obtain ⟨hstamped, hsame', _⟩ := conserves_stamps (hpassed hclaims) hstamps
    exact ⟨hremove.trans (hclaimed.trans hstamped), fun k => (hsame' k).trans (hsame _ rfl k)⟩
  have hdelivered : ∀ {v w : ProducerWorld} {stamp : Option BatchStamp}
      {out : Option (Except ClientError Int64)},
      (∀ k, heldOf v k = heldOf (s.remove key).2 k) →
      Delivers codecs config okExec (spares codecs config)
        ⟨key, s.producer.slot key, stamp⟩ v out w →
      Conserves v w ∧ (∀ k, k ≠ key → heldOf w k = []) ∧
        (out = none ∨ (∃ offset, out = some (.ok offset)) → EmptyHanded w) ∧
        (∀ e, out = some (.error e) → heldOf w key = heldOf v key) := by
    intro v w stamp out hsame hdelivers
    refine conserves_delivers (.inl ?_) (fun k hkey => ?_) hdelivers
    · exact (hsame key).trans ((hheld key).trans (if_pos rfl))
    · exact (hsame k).trans ((hheld k).trans (if_neg hkey))
  cases h with
  | unclaimed e u hclaims =>
      obtain ⟨hconserves, hsame, _⟩ := conserves_claims hclaims
      exact hrestored (hremove.trans hconserves) (hsame _ rfl)
  | claimDropped _ hclaims =>
      obtain ⟨hconserves, _, hnone⟩ := conserves_claims hclaims
      exact ⟨hremove.trans hconserves, hnone rfl⟩
  | unstamped _ u v hclaims hstamps | stampDropped u _ hclaims hstamps =>
      obtain ⟨_, _, _, heq⟩ := conserves_stamps (hpassed hclaims) hstamps
      cases heq
  | delivered stamp _ u v _ hclaims hstamps hdelivers =>
      obtain ⟨hconserves, hsame⟩ := hflying hclaims hstamps
      obtain ⟨hconserves', _, hempty', _⟩ := hdelivered hsame hdelivers
      exact ⟨hconserves.trans hconserves', hempty' (.inr ⟨_, rfl⟩)⟩
  | deliveryDropped stamp u v _ hclaims hstamps hdelivers =>
      obtain ⟨hconserves, hsame⟩ := hflying hclaims hstamps
      obtain ⟨hconserves', _, hempty', _⟩ := hdelivered hsame hdelivers
      exact ⟨hconserves.trans hconserves', hempty' (.inl rfl)⟩
  | failed stamp e u v w hclaims hstamps hdelivers =>
      obtain ⟨hconserves, hsame⟩ := hflying hclaims hstamps
      obtain ⟨hconserves', hothers, _, hkept⟩ := hdelivered hsame hdelivers
      have hkey : heldOf w key = (s.producer.slot key).records := by
        rw [hkept e rfl, hsame, hheld, if_pos rfl]
      obtain ⟨hback, hbackHeld⟩ :=
        conserves_handedBack ⟨key, s.producer.slot key, stamp⟩ hkey
      refine ⟨hconserves.trans
        (hconserves'.trans (hback.trans (conserves_poisoned e))), fun k => ?_⟩
      refine (hbackHeld k).trans ?_
      split
      · rfl
      next hne => exact hothers k hne

theorem stamped_keys {batches : List (PartitionKey × PendingBatch)} {stamped : List Parcel}
    (h : stamped.map (fun parcel => (parcel.key, parcel.pending)) = batches) :
    stamped.map (·.key) = batches.map (·.1) := by
  rw [← h, List.map_map]
  rfl

theorem drained_keys : (s.drain keys).1.map (·.1) = keys := by
  simp only [ProducerWorld.drain, List.map_map, Function.comp_def, List.map_id']

theorem heldOf_drained (hperm : keys.Perm s.producer.pending.keys)
    (hmem : (key, pending) ∈ (s.drain keys).1) :
    heldOf (s.drain keys).2 key = pending.records := by
  obtain ⟨k, hk, heq⟩ := List.mem_map.mp hmem
  cases heq
  rw [heldOf_drain (nodup_of_perm hperm), if_pos hk]

/-- The deliveries of a flush, and what is settled after them. -/
theorem conserves_delivered {stamped : List Parcel} {flights : List Flight}
    {outcomes : List (Except ClientError Int64)} (hperm : keys.Perm s.producer.pending.keys)
    (hstamped : stamped.map (fun parcel => (parcel.key, parcel.pending)) = (s.drain keys).1)
    (hsame : ∀ k, heldOf v k = heldOf (s.drain keys).2 k)
    (hdeliver : v.deliver codecs config stamped flights = some (outcomes, w)) :
    Conserves v (settled w (stamped.zip outcomes)) ∧
      EmptyHanded (settled w (stamped.zip outcomes)) := by
  have hkeys : stamped.map (·.key) = keys := (stamped_keys hstamped).trans drained_keys
  have hnodup : (stamped.map (·.key)).Nodup := by
    rw [hkeys]
    exact nodup_of_perm hperm
  have hheld : ∀ parcel ∈ stamped, heldOf v parcel.key = parcel.pending.records := by
    intro parcel hmem
    rw [hsame]
    refine heldOf_drained hperm ?_
    rw [← hstamped]
    exact List.mem_map.mpr ⟨parcel, hmem, rfl⟩
  obtain ⟨hconserves, hresults, hleft⟩ := conserves_deliver hnodup hheld hdeliver
  obtain ⟨_, hlength, _⟩ := deliver_log hdeliver
  have hzip : (stamped.zip outcomes).map (fun result => result.1.key) = stamped.map (·.key) := by
    have hfst : (stamped.zip outcomes).map Prod.fst = stamped :=
      List.map_fst_zip (Nat.le_of_eq hlength.symm)
    have hmapped := congrArg (List.map fun parcel : Parcel => parcel.key) hfst
    rw [List.map_map] at hmapped
    exact hmapped
  obtain ⟨hsettles, hsettled⟩ := conserves_settled (hzip ▸ hnodup) hresults
  refine ⟨hconserves.trans hsettles, fun k => (hsettled k).trans ?_⟩
  split
  · rfl
  next hk =>
    rw [hzip] at hk
    rw [hleft k hk, hsame, heldOf_drain (nodup_of_perm hperm), if_neg (hkeys ▸ hk)]

/-- Nor does a flush of all of them; one that succeeds empties the buffers. -/
theorem conserves_flushes {out : Option (Except ClientError (List Delivery))}
    (hstate : s.producer.txnState ≠ .disabled) (hempty : EmptyHanded s)
    (hsteady : s.producer.txnState = .opened → Steady config s.producer)
    (h : Flushes codecs config okExec (spares codecs config) s out t) :
    Conserves s t ∧ EmptyHanded t ∧
      ∀ deliveries, out = some (.ok deliveries) → t.producer.pending = ∅ := by
  have hflying : ∀ {keys : List PartitionKey} {u v : ProducerWorld} {stamped : List Parcel},
      keys.Perm s.producer.pending.keys →
      Claims config okExec (spares codecs config) keys (s.drain keys).2 (some (.ok ())) u →
      StampsAll config okExec (spares codecs config) (s.drain keys).1 [] u (some (.ok stamped)) v →
      Conserves s v ∧ (∀ k, heldOf v k = heldOf (s.drain keys).2 k) ∧
        stamped.map (fun parcel => (parcel.key, parcel.pending)) = (s.drain keys).1 ∧
        v.producer.pending = ∅ := by
    intro keys u v stamped hperm hclaims hstamps
    obtain ⟨hclaimed, hsame, _⟩ := conserves_claims hclaims
    obtain ⟨hstamped, hsame', _⟩ := conserves_stampsAll
      (steady_of_claims (s := (s.drain keys).2) hstate hsteady hclaims) hstamps
    obtain ⟨hmap, hpending, _⟩ := stampsAll_ok hstamps rfl
    exact ⟨(conserves_drain hperm hempty).trans (hclaimed.trans hstamped),
      fun k => (hsame' k).trans (hsame _ rfl k), hmap, hpending.trans hclaims.buffers.1⟩
  cases h with
  | empty hnone =>
      have hperm : List.Perm [] s.producer.pending.keys := by rw [hnone]
      refine ⟨conserves_drain hperm hempty, fun k => ?_, fun _ _ => rfl⟩
      exact (heldOf_drain (nodup_of_perm hperm) k).trans (if_neg List.not_mem_nil)
  | unclaimed keys e u hperm _ hclaims =>
      obtain ⟨hclaimed, hsame, _⟩ := conserves_claims hclaims
      have hnodup : ((s.drain keys).1.map (·.1)).Nodup := by
        rw [drained_keys]
        exact nodup_of_perm hperm
      obtain ⟨hrestored, hheld⟩ := Conserves.restoredAll (w := u) hnodup fun batch hbatch =>
        (hsame _ rfl batch.1).trans (heldOf_drained hperm hbatch)
      refine ⟨(conserves_drain hperm hempty).trans (hclaimed.trans hrestored), fun k => ?_,
        fun _ heq => (by cases heq)⟩
      refine (hheld k).trans ?_
      rw [drained_keys]
      split
      · rfl
      next hk => rw [hsame _ rfl k, heldOf_drain (nodup_of_perm hperm), if_neg hk]
  | claimDropped keys _ hperm _ hclaims =>
      obtain ⟨hclaimed, _, hnone⟩ := conserves_claims hclaims
      exact ⟨(conserves_drain hperm hempty).trans hclaimed, hnone rfl, fun _ heq => (by cases heq)⟩
  | unstamped keys _ u _ hperm _ hclaims hstamps | stampDropped keys u _ hperm _ hclaims hstamps =>
      obtain ⟨_, _, _, heq⟩ := conserves_stampsAll
        (steady_of_claims (s := (s.drain keys).2) hstate hsteady hclaims) hstamps
      cases heq
  | delivered keys stamped flights outcomes _ u v w hperm _ hclaims hstamps _ hdeliver hnone =>
      obtain ⟨hflown, hsame, hmap, hpending⟩ := hflying hperm hclaims hstamps
      obtain ⟨hsettles, hempty'⟩ := conserves_delivered hperm hmap hsame hdeliver
      refine ⟨hflown.trans hsettles, hempty', fun _ _ => ?_⟩
      have hall := (failureOf_none hnone).2
      have hwpending : w.producer.pending = ∅ := by rw [(deliver_log hdeliver).1, hpending]
      rw [settled_of_ok hall, hwpending]
  | failed keys stamped flights outcomes worst u v w hperm _ hclaims hstamps _ hdeliver _ =>
      obtain ⟨hflown, hsame, hmap, _⟩ := hflying hperm hclaims hstamps
      obtain ⟨hsettles, hempty'⟩ := conserves_delivered hperm hmap hsame hdeliver
      exact ⟨hflown.trans (hsettles.trans (conserves_poisoned _)), hempty',
        fun _ heq => (by cases heq)⟩
  | deliveryDropped keys stamped flights u v w hperm _ hclaims hstamps hspares hscatter =>
      obtain ⟨hflown, hsame, hmap, _⟩ := hflying hperm hclaims hstamps
      have hkeys : stamped.map (·.key) = keys := (stamped_keys hmap).trans drained_keys
      have hscattered : Conserves v w := by
        refine conserves_scatter (hkeys ▸ nodup_of_perm hperm) (fun parcel hmem => ?_) hscatter
        rw [hsame]
        refine heldOf_drained hperm ?_
        rw [← hmap]
        exact List.mem_map.mpr ⟨parcel, hmem, rfl⟩
      have hnothing : EmptyHanded w := by
        refine heldOf_nil_of_empty ?_
        have hall : (v.scatter codecs config stamped flights).all holdsNothing = true := hspares
        rw [hscatter] at hall
        exact hall
      exact ⟨hflown.trans (hscattered.trans (.abandoned hnothing)), emptyHanded_abandoned,
        fun _ heq => (by cases heq)⟩

/-- A produce loses no record, however it ends. -/
theorem conserves_produces {out : Option (Except ClientError Int64)}
    (hstate : s.producer.txnState ≠ .disabled) (hempty : EmptyHanded s)
    (hsteady : s.producer.txnState = .opened → Steady config s.producer)
    (h : Produces codecs config okExec (spares codecs config) key records s out t) :
    Conserves s t ∧ EmptyHanded t := by
  have hflying : ∀ {u v : ProducerWorld} {stamp : Option BatchStamp},
      Claims config okExec (spares codecs config) [key] s (some (.ok ())) u →
      Stamps config okExec (spares codecs config) key records.length u (some (.ok stamp)) v →
      Conserves s v ∧ EmptyHanded v := by
    intro u v stamp hclaims hstamps
    obtain ⟨hclaimed, hsame, _⟩ := conserves_claims hclaims
    obtain ⟨hstamped, hsame', _⟩ :=
      conserves_stamps (steady_of_claims hstate hsteady hclaims) hstamps
    refine ⟨hclaimed.trans hstamped, fun k => ?_⟩
    rw [hsame', hsame _ rfl]
    exact hempty k
  have hdelivered : ∀ {v w : ProducerWorld} {stamp : Option BatchStamp}
      {out : Option (Except ClientError Int64)}, EmptyHanded v →
      Delivers codecs config okExec (spares codecs config) ⟨key, ⟨records, 0⟩, stamp⟩ v out w →
      Conserves v w ∧ EmptyHanded w := by
    intro v w stamp out hnone hdelivers
    obtain ⟨hconserves, hothers, hdone, hfailed⟩ :=
      conserves_delivers (.inr (hnone key)) (fun k _ => hnone k) hdelivers
    refine ⟨hconserves, ?_⟩
    cases out with
    | none => exact hdone (.inl rfl)
    | some r =>
        cases r with
        | ok offset => exact hdone (.inr ⟨offset, rfl⟩)
        | error e =>
            intro k
            by_cases hkey : k = key
            · rw [hkey]
              exact (hfailed e rfl).trans (hnone key)
            · exact hothers k hkey
  cases h with
  | unclaimed e _ hclaims =>
      obtain ⟨hconserves, hsame, _⟩ := conserves_claims hclaims
      exact ⟨hconserves, fun k => (hsame _ rfl k).trans (hempty k)⟩
  | claimDropped _ hclaims =>
      obtain ⟨hconserves, _, hnone⟩ := conserves_claims hclaims
      exact ⟨hconserves, hnone rfl⟩
  | unstamped _ u _ hclaims hstamps | stampDropped u _ hclaims hstamps =>
      obtain ⟨_, _, _, heq⟩ := conserves_stamps (steady_of_claims hstate hsteady hclaims) hstamps
      cases heq
  | delivered stamp _ u v _ hclaims hstamps hdelivers
  | deliveryDropped stamp u v _ hclaims hstamps hdelivers =>
      obtain ⟨hconserves, hnone⟩ := hflying hclaims hstamps
      obtain ⟨hconserves', hnone'⟩ := hdelivered hnone hdelivers
      exact ⟨hconserves.trans hconserves', hnone'⟩
  | failed stamp e u v w hclaims hstamps hdelivers =>
      obtain ⟨hconserves, hnone⟩ := hflying hclaims hstamps
      obtain ⟨hconserves', hnone'⟩ := hdelivered hnone hdelivers
      have hrewound : Conserves w (w.setProducer (w.producer.rewind key stamp)) :=
        .of_eq rfl rfl (by cases stamp <;> rfl)
      exact ⟨hconserves.trans (hconserves'.trans (hrewound.trans (conserves_poisoned e))), hnone'⟩

end Whole

section Kept

/-- Whatever was accepted since the transaction was begun is still somewhere. -/
def Kept (w : ProducerWorld) : Prop :=
  ∀ key, (acceptedSince w.log key).Sublist (account w key)

/-- The same of a record that is about to be accepted. -/
def KeptWith (w : ProducerWorld) (key : PartitionKey) (record : Record) : Prop :=
  ∀ k, (acceptedSince w.log k ++ if k = key then [record] else []).Sublist (account w k)

theorem Conserves.kept (h : Conserves s t) (hs : Kept s) : Kept t := by
  intro k
  rw [h.accepted k]
  exact (hs k).trans (h.total k)

theorem Conserves.keptWith (h : Conserves s t) (hs : KeptWith s key record) :
    KeptWith t key record := by
  intro k
  rw [h.accepted k]
  exact (hs k).trans (h.total k)

theorem KeptWith.kept (h : KeptWith s key record) : Kept s :=
  fun k => (List.sublist_append_left _ _).trans (h k)

theorem Kept.pushed (h : Kept s) : KeptWith (pushed s key record) key record := by
  intro k
  rw [account, slot_pushed, withRecord]
  change (acceptedSince s.log k ++ _).Sublist (ackedSince s.log k ++ (heldOf s k ++ _))
  split
  · rw [← List.append_assoc (heldOf s k), ← List.append_assoc (ackedSince s.log k)]
    exact (h k).append_right _
  · rw [List.append_nil]
    exact h k

theorem KeptWith.accepted (h : KeptWith s key record) : Kept (s.note (.accepted key record)) := by
  intro k
  have haccepted : acceptedSince (s.note (.accepted key record)).log k =
      acceptedSince s.log k ++ if key = k then [record] else [] :=
    acceptedSince_append fun hbegan => by cases hbegan
  have haccount : account (s.note (.accepted key record)) k = account s k := by
    have hacked : ackedSince (s.note (.accepted key record)).log k = ackedSince s.log k ++ [] :=
      ackedSince_append fun hbegan => by cases hbegan
    rw [account, hacked, List.append_nil]
    rfl
  rw [haccepted, haccount]
  simpa only [eq_comm] using h k

theorem kept_enqueues {out : Option (Except ClientError (Option Delivery))}
    (hstate : s.producer.txnState ≠ .disabled) (hempty : EmptyHanded s)
    (hsteady : s.producer.txnState = .opened → Steady config s.producer)
    (h : Enqueues codecs config okExec (spares codecs config) key record s out t) :
    EmptyHanded t ∧ (Kept s → Kept t) := by
  have hpushed : EmptyHanded (pushed s key record) := hempty
  cases h with
  | buffered => exact ⟨hempty, fun hkept => hkept.pushed.accepted⟩
  | flushed _ u hflush =>
      obtain ⟨hconserves, hnone⟩ := conserves_flushesPartition
        (s := pushed s key record) hstate hpushed hsteady hflush
      exact ⟨hnone, fun hkept => (hconserves.keptWith hkept.pushed).accepted⟩
  | failed _ _ hflush | dropped _ hflush =>
      obtain ⟨hconserves, hnone⟩ := conserves_flushesPartition
        (s := pushed s key record) hstate hpushed hsteady hflush
      exact ⟨hnone, fun hkept => (hconserves.keptWith hkept.pushed).kept⟩

theorem kept_enqueuesKeyed {topic : String} {out : Option (Except ClientError (Option Delivery))}
    (hstate : s.producer.txnState ≠ .disabled) (hempty : EmptyHanded s)
    (hsteady : s.producer.txnState = .opened → Steady config s.producer)
    (h : EnqueuesKeyed codecs config okExec (spares codecs config) topic record s out t) :
    EmptyHanded t ∧ (Kept s → Kept t) := by
  cases h with
  | unrouted _ => exact ⟨hempty, id⟩
  | dropped => exact ⟨emptyHanded_abandoned, (Conserves.abandoned hempty).kept⟩
  | routed _ cursor _ _ henqueues =>
      have hrotated : Conserves s (rotated s cursor) := .of_eq rfl rfl rfl
      obtain ⟨hnone, hkept⟩ := kept_enqueues (s := rotated s cursor) hstate hempty hsteady henqueues
      exact ⟨hnone, fun h => hkept (hrotated.kept h)⟩

/-- Nothing but a commit puts one on record. -/
theorem committed_frame {okDrop : ProducerOp → ProducerChoice → ProducerWorld → Bool} :
    Frame codecs config okExec okDrop (fun w => CommittedLog w.log) fun _ => True :=
  plain_frame fun _ _ _ hlog hplain => hlog.append fun heq => (by rw [heq] at hplain; cases hplain)

end Kept

section Sessions

/-- A producer inside a transaction, with all it accepted accounted for. -/
structure Accountable (config : ProducerConfig) (s : ProducerWorld) : Prop where
  equipped : Equipped config s.producer
  acks : s.producer.txnState = .ready ∨ s.producer.txnState = .opened ∨
    s.producer.txnState = .abortable → config.acks = acksAll
  emptyHanded : s.producer.txnState ≠ .disabled → EmptyHanded s
  kept : s.producer.txnState = .opened → Kept s
  log : CommittedLog s.log

theorem Accountable.steady (h : Accountable config s) (hopened : s.producer.txnState = .opened) :
    Steady config s.producer :=
  fun _ => ⟨h.acks (.inr (.inl hopened)), h.equipped.identified (.inr (.inl hopened))⟩

/-- A state that a failure may have changed. -/
theorem Accountable.advance (h : Accountable config s) (hadvances : Advances s t)
    (hempty : s.producer.txnState ≠ .disabled → EmptyHanded t)
    (hkept : s.producer.txnState = .opened → Kept t) (hlog : CommittedLog t.log) :
    Accountable config t := by
  refine ⟨h.equipped.advance hadvances, fun hstate => ?_, fun hstate => ?_, fun hopened => ?_, hlog⟩
  · rcases hadvances.state with heq | ⟨hs, _⟩ | ⟨_, ht⟩
    · exact h.acks (heq ▸ hstate)
    · exact h.acks (.inr (.inl hs))
    · rw [ht] at hstate
      rcases hstate with hstate | hstate | hstate <;> cases hstate
  · refine hempty fun hs => hstate ?_
    rcases hadvances.state with heq | ⟨hopened, _⟩ | ⟨hne, _⟩
    · exact heq.trans hs
    · rw [hs] at hopened; cases hopened
    · exact absurd hs hne
  · rcases hadvances.state with heq | ⟨_, ht⟩ | ⟨_, ht⟩
    · exact hkept (heq ▸ hopened)
    · rw [ht] at hopened; cases hopened
    · rw [ht] at hopened; cases hopened

/-- What a call of no account does. -/
theorem Accountable.conserve (h : Accountable config s) (hadvances : Advances s t)
    (hmoves : s.producer.txnState ≠ .disabled → EmptyHanded t ∧ (Kept s → Kept t))
    (hlog : CommittedLog t.log) : Accountable config t :=
  h.advance hadvances (fun hstate => (hmoves hstate).1)
    (fun hopened => (hmoves (by rw [hopened]; exact fun heq => (by cases heq))).2 (h.kept hopened))
    hlog

theorem Accountable.quiet (h : Accountable config s) (hadvances : Advances s t)
    (hheld : t.held = s.held) (hconserves : Conserves s t) (hlog : CommittedLog t.log) :
    Accountable config t :=
  h.conserve hadvances
    (fun hstate => ⟨fun k => by rw [heldOf, hheld]; exact h.emptyHanded hstate k, hconserves.kept⟩)
    hlog

theorem Accountable.noted {event : ProducerEvent} (h : Accountable config s)
    (hsilent : Conserves.Silent event) (hcommitted : event ≠ .committed) :
    Accountable config (s.note event) :=
  h.quiet (.of_eq rfl rfl) rfl (.noted hsilent) (h.log.append fun heq => absurd heq hcommitted)

theorem Accountable.poisoned (h : Accountable config s) (e : ClientError) :
    Accountable config (poisoned s e) :=
  h.quiet (.poisoned e) rfl (conserves_poisoned e) h.log

theorem Accountable.told {event : ProducerEvent} {announced : Bool} (h : Accountable config s)
    (hsilent : Conserves.Silent event) (hcommitted : event ≠ .committed) :
    Accountable config (told s event announced) :=
  (h.noted hsilent hcommitted).quiet (.of_eq rfl rfl) rfl (.of_eq rfl rfl rfl)
    (h.noted hsilent hcommitted).log

/-- A transaction ends `Ready`, or it is left as a failure leaves it. -/
theorem Accountable.endsTransaction {committed : Bool} {r : Except ClientError Unit}
    (h : Accountable config s) (hne : s.producer.txnState ≠ .disabled)
    (hacks : config.acks = acksAll)
    (hends : EndsTransaction config okExec committed s r t) :
    Accountable config t ∧
      (r = .ok () → t.log = s.log ++ [(.ended committed (.ok ()), s.producer)] ∧
        t.producer.txnState = .ready) := by
  cases hends with
  | refused _ _ => exact ⟨h, fun heq => (by cases heq)⟩
  | answered txn answers _ htxn hverdict hok =>
      have htold : Accountable config
          (Client.told s (.ended committed r) (s.announced && !applied answers)) :=
        h.told Conserves.silent_ended fun heq => (by cases heq)
      cases r with
      | error e => exact ⟨htold.poisoned e, fun heq => (by cases heq)⟩
      | ok _ =>
          have hends : EndsTransaction config okExec committed s (.ok ())
              (endedAs s committed answers (.ok ())) :=
            .answered txn answers (.ok ()) htxn hverdict hok
          have hequipped := h.equipped.endsTransaction hends
          exact ⟨⟨hequipped, fun _ => hacks, fun _ => h.emptyHanded hne,
            fun hopened => (by cases hopened), htold.log⟩, fun _ => ⟨rfl, rfl⟩⟩

theorem Accountable.initialize {r : Except ClientError Unit} (h : Accountable config s)
    (hinit : Initializes config s r t) : Accountable config t := by
  cases hinit with
  | refused _ => exact h
  | unissued _ _ _ _ => exact h.told Conserves.silent_identified fun heq => (by cases heq)
  | issued answers identity hstate hname hacks _ =>
      have htold : Accountable config
          (Client.told s (.identified (.ok identity)) (s.announced && !applied answers)) :=
        h.told Conserves.silent_identified fun heq => (by cases heq)
      have hsilent : Conserves.Silent (.initialized identity) :=
        Conserves.silent_initialized
      have hnoted := htold.noted hsilent fun heq => (by cases heq)
      refine ⟨⟨fun hnone => ?_, fun _ hnone => (by cases hnone)⟩,
        fun _ => checkIdempotentAcks_ok.mp hacks, fun _ => h.emptyHanded ?_,
        fun hopened => (by cases hopened), hnoted.log⟩
      · rw [hnone] at hname
        cases hname
      · rw [hstate]
        exact fun heq => (by cases heq)

theorem Accountable.flush {out : Option (Except ClientError (List Delivery))}
    (h : Accountable config s) (hopened : s.producer.txnState = .opened)
    (hflushes : Flushes codecs config okExec (spares codecs config) s out t) :
    Accountable config t ∧ t.producer.txnState ≠ .disabled ∧ Kept t ∧ EmptyHanded t ∧
      ∀ deliveries, out = some (.ok deliveries) → t.producer.pending = ∅ := by
  have hne : s.producer.txnState ≠ .disabled := by
    rw [hopened]
    exact fun heq => (by cases heq)
  have hadvances := (Advances.frame s).flushes .refl hflushes
  obtain ⟨hconserves, hempty, hpending⟩ :=
    conserves_flushes hne (h.emptyHanded hne) h.steady hflushes
  refine ⟨h.conserve hadvances (fun _ => ⟨hempty, hconserves.kept⟩)
    (committed_frame.flushes h.log hflushes), ?_, hconserves.kept (h.kept hopened),
    hempty, hpending⟩
  rcases hadvances.state with heq | ⟨_, ht⟩ | ⟨_, ht⟩
  · rw [heq]; exact hne
  · rw [ht]; exact fun heq => (by cases heq)
  · rw [ht]; exact fun heq => (by cases heq)

theorem Accountable.commit {r : Except ClientError Unit} (h : Accountable config s)
    (hcommits : Commits codecs config okExec (spares codecs config) s r t) :
    Accountable config t := by
  cases hcommits with
  | refused _ _ => exact h
  | unflushed e u hopened hflushes => exact (h.flush hopened hflushes).1.poisoned e
  | failed _ _ u _ hopened hflushes hends =>
      obtain ⟨hu, hne, _⟩ := h.flush hopened hflushes
      exact (hu.endsTransaction hne (h.acks (.inr (.inl hopened))) hends).1
  | committed _ u v hopened hflushes hends =>
      obtain ⟨hu, hne, hkept, hempty, hpending⟩ := h.flush hopened hflushes
      obtain ⟨hv, hready⟩ := hu.endsTransaction hne (h.acks (.inr (.inl hopened))) hends
      obtain ⟨hlog, hstate⟩ := hready rfl
      -- what is accounted for after the flush is all acknowledged
      have hacked : ∀ key, (acceptedSince v.log key).Sublist (ackedSince v.log key) := by
        intro key
        have hend : Conserves u (u.note (.ended true (.ok ()))) := .noted Conserves.silent_ended
        have hall := hend.kept hkept key
        have hslot : ((u.note (.ended true (.ok ()))).producer.slot key).records = [] := by
          change (u.producer.slot key).records = []
          rw [slot, hpending _ rfl]
          rfl
        have hheld : heldOf (u.note (.ended true (.ok ()))) key = [] := hempty key
        rw [account, hslot, hheld, List.append_nil, List.append_nil] at hall
        rw [hlog]
        exact hall
      refine ⟨hv.equipped, hv.acks, hv.emptyHanded, fun hopened' => ?_,
        hv.log.append fun _ => hacked⟩
      have hready' : v.producer.txnState = .opened := hopened'
      rw [hstate] at hready'
      cases hready'

theorem Accountable.abort {r : Except ClientError Unit} (h : Accountable config s)
    (haborts : Aborts config okExec s r t) : Accountable config t := by
  cases haborts with
  | refused _ _ _ => exact h
  | ended _ _ hstate hends =>
      have hequipped : Equipped config (discarded s).producer := h.equipped.advance (.of_eq rfl rfl)
      have hequipped' := hequipped.endsTransaction hends
      have hne : s.producer.txnState ≠ .disabled := by
        rcases hstate with hs | hs <;> rw [hs] <;> exact fun heq => (by cases heq)
      have hacks : config.acks = acksAll := h.acks (.inr hstate)
      obtain ⟨txn, htxn⟩ := h.equipped.txn hstate
      cases hends with
      | refused _ herror =>
          have htxn' : (discarded s).producer.txn config = .ok txn := htxn
          rw [htxn'] at herror
          cases herror
      | answered _ answers _ _ _ _ =>
          -- the buffer is gone, but the transaction is not open any more
          refine ⟨hequipped', fun _ => hacks, fun _ => h.emptyHanded hne, fun hopened => ?_,
            h.log.append fun heq => by cases heq⟩
          exfalso
          cases r with
          | ok _ => cases hopened
          | error e =>
              have hopened' : afterFailure s.producer.txnState e = .opened := hopened
              rcases hstate with hs | hs <;> rw [hs] at hopened' <;>
                simp only [afterFailure] at hopened' <;> split at hopened' <;> cases hopened'

/-- Every call keeps the accepted records accounted for. -/
theorem Accountable.call {call : ProducerCall} {out : Option (Except ClientError Unit)}
    (h : Accountable config s)
    (hcall : CallEnds codecs config okExec (spares codecs config) s call out t) :
    Accountable config t := by
  cases hcall with
  | initTransactions _ _ hinit => exact h.initialize hinit
  | beginTransaction _ _ hbegin =>
      cases hbegin with
      | refused _ _ => exact h
      | begun hready =>
          have hne : s.producer.txnState ≠ .disabled := by
            rw [hready]
            exact fun heq => (by cases heq)
          refine ⟨⟨fun hnone => ?_, fun _ => h.equipped.identified (.inl hready)⟩,
            fun _ => h.acks (.inl hready), fun _ => h.emptyHanded hne, fun _ key => ?_,
            h.log.append fun heq => by cases heq⟩
          · exact absurd (h.equipped.named hnone) hne
          · have hnone : acceptedSince (begun s).log key = [] := acceptedSince_began
            rw [hnone]
            exact List.nil_sublist _
  | enqueue _ _ _ _ henqueues =>
      exact h.conserve ((Advances.frame s).enqueues .refl henqueues)
        (fun hne => kept_enqueues hne (h.emptyHanded hne) h.steady henqueues)
        (committed_frame.enqueues h.log henqueues)
  | enqueueKeyed _ _ _ _ henqueues =>
      exact h.conserve ((Advances.frame s).enqueuesKeyed .refl henqueues)
        (fun hne => kept_enqueuesKeyed hne (h.emptyHanded hne) h.steady henqueues)
        (committed_frame.enqueuesKeyed h.log henqueues)
  | produce _ _ _ _ hproduces =>
      refine h.conserve ((Advances.frame s).produces .refl hproduces) (fun hne => ?_)
        (committed_frame.produces h.log hproduces)
      obtain ⟨hconserves, hempty⟩ :=
        conserves_produces hne (h.emptyHanded hne) h.steady hproduces
      exact ⟨hempty, hconserves.kept⟩
  | flush _ _ hflushes =>
      refine h.conserve ((Advances.frame s).flushes .refl hflushes) (fun hne => ?_)
        (committed_frame.flushes h.log hflushes)
      obtain ⟨hconserves, hempty, _⟩ := conserves_flushes hne (h.emptyHanded hne) h.steady hflushes
      exact ⟨hempty, hconserves.kept⟩
  | sendOffsets _ _ r _ hsends =>
      cases hsends with
      | refused _ _ => exact h
      | unannounced _ _ answers e _ _ _ _ =>
          exact (h.told Conserves.silent_offsets fun heq => (by cases heq)).poisoned e
      | nothing _ _ _ _ _ _ _ => exact h.told Conserves.silent_offsets fun heq => (by cases heq)
      | answered _ _ _ answers answers' _ _ _ _ _ _ _ =>
          have htold : Accountable config (offsetsTold s answers (.ok ())) :=
            h.told Conserves.silent_offsets fun heq => (by cases heq)
          have hsilent : Conserves.Silent (.offsets r) := Conserves.silent_offsets
          have hnoted := htold.noted hsilent fun heq => (by cases heq)
          cases r with
          | ok _ => exact hnoted
          | error e => exact hnoted.poisoned e
  | commitTransaction _ _ hcommits => exact h.commit hcommits
  | abortTransaction _ _ haborts => exact h.abort haborts

/-- The runs in which no call is dropped with records in its hands. -/
abbrev SparingSessions (codecs : Codecs) (config : ProducerConfig) : ProducerWorld → Prop :=
  ProducerSessions (ProducerUnder codecs config always (spares codecs config)) config
    ProducerCall.mayDrop

/-- A committed transaction has every record its enqueues accepted. -/
theorem commit_has_all (codecs : Codecs) (config : ProducerConfig) (s : ProducerWorld)
    (h : SparingSessions codecs config s) : CommittedLog s.log := by
  have haccountable : Accountable config s := by
    refine sessions_induction (P := Accountable config) (fun _ hmay => hmay) ?_
      (fun hs _ hcall => hs.call hcall) h
    have hequipped : Equipped config (ProducerWorld.fresh config).producer := equipped_of_fresh
    have hstate : ∀ {state}, (ProducerWorld.fresh config).producer.txnState = state →
        state = .uninitialized ∨ state = .disabled := by
      rintro state rfl
      change (if config.transactionalId.isSome then TransactionState.uninitialized
        else .disabled) = _ ∨ (if config.transactionalId.isSome then TransactionState.uninitialized
        else .disabled) = _
      split
      · exact .inl rfl
      · exact .inr rfl
    refine ⟨hequipped, fun hactive => ?_, fun _ _ => rfl, fun _ _ => List.Sublist.refl _, ?_⟩
    · rcases hactive with hactive | hactive | hactive <;>
        rcases hstate hactive with heq | heq <;> cases heq
    · intro before after _ heq
      cases before <;> cases heq
  exact haccountable.log

def bufferRun : List (ProducerCall × List (Turn ProducerChoice)) :=
  beginRun ++ [(.enqueue ("t", 0) Record.minimal, [.go .go, .go .go, .go .go, .go .go])]

def endTurns : List (Turn ProducerChoice) :=
  [.go .go, .go (.replies [.took ()]), .go .go, .go .go, .go .go]

/-- A call is dropped with nothing in its hands, and the commit has the record. -/
def sparingRun : List (ProducerCall × List (Turn ProducerChoice)) :=
  bufferRun ++ [(.enqueueKeyed "u" Record.minimal, [.go (.count none), .drop .go]),
    (.commitTransaction, [.go .go, .go (.order [("t", 0)]), .go .go, .go (.replies [.took ()]),
      .go .go, .go .go, .go .go, .go .go,
      .go (.flights [{ nowMs := 0, answers := [.took 0] }])] ++ endTurns)]

/-- A flush is dropped while it announces its partitions. -/
def droppedRun : List (ProducerCall × List (Turn ProducerChoice)) :=
  bufferRun ++ [(.flush, [.go (.order [("t", 0)]), .go .go, .drop (.replies [])]),
    (.commitTransaction, [.go .go, .go (.order [])] ++ endTurns)]

theorem commit_has_all_once : ∃ s : ProducerWorld, (∃ p, (ProducerEvent.committed, p) ∈ s.log) ∧
    CommittedLog s.log := by
  have hrun : (((ProducerUnder Codecs.stored (.transactional "txn") always
      (spares Codecs.stored (.transactional "txn"))).replayAll
        (ProducerCall.body (.transactional "txn")) ProducerCall.mayDrop sparingRun
          (.fresh (.transactional "txn"))).map fun s => s.log.any fun entry =>
            match entry.1 with
            | .committed => true
            | _ => false) = some true := by
    decide
  obtain ⟨s, hs, hany⟩ := Option.map_eq_some_iff.mp hrun
  refine ⟨s, ?_, commit_has_all Codecs.stored (.transactional "txn") s
    (.of_replayAll (.start rfl) hs)⟩
  obtain ⟨⟨event, p⟩, hmem, hentry⟩ := List.any_eq_true.mp hany
  cases event with
  | committed => exact ⟨p, hmem⟩
  | _ => cases hentry

/-- What the dropped flush had drained is in no batch of the transaction. -/
theorem not_commit_has_all : ¬ ∀ (codecs : Codecs) (config : ProducerConfig) (s : ProducerWorld),
    config.transactionalId.isSome →
    ProducerSessions (producerService codecs config) config ProducerCall.mayDrop s →
      CommittedLog s.log := by
  intro h
  have hrun : (((producerService Codecs.stored (.transactional "txn")).replayAll
      (ProducerCall.body (.transactional "txn")) ProducerCall.mayDrop droppedRun
        (.fresh (.transactional "txn"))).map fun s => s.log.getLast?.elim false fun entry =>
          (match entry.1 with
          | .committed => true
          | _ => false) &&
            (acceptedSince s.log.dropLast ("t", 0)).length = 1 &&
            (ackedSince s.log.dropLast ("t", 0)).length = 0) = some true := by
    decide
  obtain ⟨s, hs, hlast⟩ := Option.map_eq_some_iff.mp hrun
  have hlog := h Codecs.stored (.transactional "txn") s rfl (.of_replayAll (.start rfl) hs)
  obtain ⟨⟨event, p⟩, hentry⟩ : ∃ entry, s.log.getLast? = some entry :=
    Option.ne_none_iff_exists'.mp fun hnone => (by rw [hnone] at hlast; cases hlast)
  have hmatch := hlast
  rw [hentry] at hmatch
  obtain ⟨hfirst, hacked⟩ := Bool.and_eq_true_iff.mp hmatch
  obtain ⟨hcommitted, haccepted⟩ := Bool.and_eq_true_iff.mp hfirst
  cases event with
  | committed =>
      have hsplit : s.log = s.log.dropLast ++ (ProducerEvent.committed, p) :: [] :=
        (List.dropLast_append_getLast? _ hentry).symm
      have hsublist := (hlog _ _ _ hsplit ("t", 0)).length_le
      rw [of_decide_eq_true haccepted, of_decide_eq_true hacked] at hsublist
      exact absurd hsublist (by decide)
  | _ => cases hcommitted

end Sessions

end Odradek.Client
