import Odradek.Client.TransactionLog

/-!
The batch filter keeps exactly the visible batches of a range. The invariant
ties the disowned set to the part of the log walked so far: a producer is
disowned when an entry of its own is in force and no control batch of it has
been met since that entry's offset.
-/

namespace Odradek.Client

open Odradek.Protocol

section Offsets

theorem batchLast_toInt {batch : RecordBatch}
    (h : 0 ≤ batch.lastOffsetDelta.toInt ∧ lastOffset batch < i64Max) :
    (batchLast batch).toInt = lastOffset batch := by
  have hlow := batch.baseOffset.minValue_le_toInt
  unfold lastOffset i64Max at h
  rw [batchLast, Int64.toInt_add, Int32.toInt_toInt64, lastOffset]
  apply Int.bmod_eq_of_le
  · have : Int64.minValue.toInt = -2 ^ 63 := by decide
    omega
  · omega

end Offsets

section Activate

variable {last : Int64} {entry : AbortedTransaction} {producerId : Int64}

/-- What `activate` leaves to come, and whom it disowns. -/
theorem activate_spec (last : Int64) (aborted : List AbortedTransaction) (disowned : List Int64)
    (hsorted : aborted.Pairwise (·.firstOffset ≤ ·.firstOffset)) :
    (∀ entry, entry ∈ (BatchFilter.activate last aborted disowned).1 ↔
      entry ∈ aborted ∧ ¬ entry.firstOffset ≤ last) ∧
    (BatchFilter.activate last aborted disowned).1.Pairwise (·.firstOffset ≤ ·.firstOffset) ∧
    ∀ producerId, producerId ∈ (BatchFilter.activate last aborted disowned).2 ↔
      producerId ∈ disowned ∨
        ∃ entry ∈ aborted, entry.firstOffset ≤ last ∧ entry.producerId = producerId := by
  induction aborted generalizing disowned with
  | nil => simp [BatchFilter.activate]
  | cons first aborted ih =>
      rw [List.pairwise_cons] at hsorted
      by_cases hreached : first.firstOffset ≤ last
      · obtain ⟨hqueue, hrest, hset⟩ := ih (first.producerId :: disowned) hsorted.2
        rw [BatchFilter.activate, if_pos hreached]
        refine ⟨?_, hrest, ?_⟩
        · intro entry
          rw [hqueue, List.mem_cons]
          refine ⟨fun h => ⟨.inr h.1, h.2⟩, ?_⟩
          rintro ⟨rfl | hmem, hnot⟩
          · exact absurd hreached hnot
          · exact ⟨hmem, hnot⟩
        · intro producerId
          rw [hset, List.mem_cons]
          constructor
          · rintro ((rfl | hmem) | ⟨entry, hmem, hle, hid⟩)
            · exact .inr ⟨first, List.mem_cons_self, hreached, rfl⟩
            · exact .inl hmem
            · exact .inr ⟨entry, List.mem_cons_of_mem _ hmem, hle, hid⟩
          · rintro (hmem | ⟨entry, hmem, hle, hid⟩)
            · exact .inl (.inr hmem)
            · rcases List.mem_cons.mp hmem with rfl | hmem
              · exact .inl (.inl hid.symm)
              · exact .inr ⟨entry, hmem, hle, hid⟩
      · -- The list is sorted, so nothing behind the first entry is reached either.
        have hnone : ∀ entry ∈ first :: aborted, ¬ entry.firstOffset ≤ last := by
          intro entry hmem hle
          rcases List.mem_cons.mp hmem with rfl | hmem
          · exact hreached hle
          · exact hreached (Int64.le_trans (hsorted.1 entry hmem) hle)
        rw [BatchFilter.activate, if_neg hreached]
        refine ⟨?_, List.pairwise_cons.mpr hsorted, ?_⟩
        · intro entry
          exact ⟨fun h => ⟨h, hnone entry h⟩, fun h => h.1⟩
        · intro producerId
          refine ⟨.inl, ?_⟩
          rintro (hmem | ⟨entry, hmem, hle, _⟩)
          · exact hmem
          · exact absurd hle (hnone entry hmem)

end Activate

section Endings

theorem isAbortMarker_of_ending {batch : RecordBatch} {ending : Ending}
    (h : ending? batch = some ending) : isAbortMarker batch = (ending == .abort) := by
  unfold ending? at h
  split at h
  · rename_i record hrecords
    split at h
    · rename_i v0 v1 hkey
      cases h
      rw [isAbortMarker, hrecords]
      simp only [List.head?_cons, hkey]
      decide
    · rename_i v0 v1 hkey
      cases h
      rw [isAbortMarker, hrecords]
      simp only [List.head?_cons, hkey]
      decide
    · cases h
  · cases h

variable {entry : AbortedTransaction}

theorem AbortedFrom.of_append {front back : List RecordBatch}
    (h : AbortedFrom entry (front ++ back)) (hunended : Unended entry front) :
    AbortedFrom entry back := by
  induction front with
  | nil => exact h
  | cons batch front ih =>
      have hbatch : ¬ (Controls entry.producerId batch ∧
          entry.firstOffset.toInt ≤ lastOffset batch) := by
        rintro ⟨hcontrols, hle⟩
        exact absurd (hunended batch List.mem_cons_self hcontrols) (by omega)
      rw [List.cons_append, AbortedFrom, if_neg hbatch] at h
      exact ih h fun b hb => hunended b (List.mem_cons_of_mem _ hb)

theorem AbortedFrom.endsInAbort {log : List RecordBatch} (h : AbortedFrom entry log)
    (hpast : ∀ batch ∈ log, entry.firstOffset.toInt ≤ lastOffset batch) :
    endsInAbort entry.producerId log = true := by
  induction log with
  | nil => exact absurd h (by simp [AbortedFrom])
  | cons batch log ih =>
      have hle := hpast batch List.mem_cons_self
      rw [AbortedFrom] at h
      rw [Client.endsInAbort]
      by_cases hcontrols : Controls entry.producerId batch
      · rw [if_pos ⟨hcontrols, hle⟩] at h
        rw [if_pos hcontrols, h]
        rfl
      · rw [if_neg fun hc => hcontrols hc.1] at h
        rw [if_neg hcontrols]
        exact ih h fun b hb => hpast b (List.mem_cons_of_mem _ hb)

theorem Unended.append {front back : List RecordBatch} :
    Unended entry (front ++ back) ↔ Unended entry front ∧ Unended entry back := by
  unfold Unended
  simp only [List.mem_append, or_imp, forall_and]

end Endings

section Invariant

/-- The filter after walking `done`, with `rest` to come. `reached` is the last
offset the walk has put entries in force for. -/
structure FilterInv (before done rest : List RecordBatch) (entries : List AbortedTransaction)
    (filter : BatchFilter) (reached : Int) : Prop where
  level : filter.readCommitted = true
  queue : ∀ entry, entry ∈ filter.aborted ↔ entry ∈ entries ∧ reached < entry.firstOffset.toInt
  sorted : filter.aborted.Pairwise (·.firstOffset ≤ ·.firstOffset)
  walked : ∀ batch ∈ done, 0 ≤ batch.producerId → lastOffset batch ≤ reached
  ahead : ∀ batch ∈ rest, reached ≤ lastOffset batch
  disowned : ∀ producerId, producerId ∈ filter.disowned ↔
    ∃ entry ∈ entries, entry.producerId = producerId ∧ entry.firstOffset.toInt ≤ reached ∧
      Unended entry (before ++ done)

variable {before done rest after : List RecordBatch} {entries : List AbortedTransaction}
  {filter : BatchFilter} {batch : RecordBatch} {reached : Int}

/-- Entering a batch puts the entries up to its end in force; the batch itself
has not been walked yet. -/
theorem FilterInv.reach (h : FilterInv before done (batch :: rest) entries filter reached)
    (hplaced : 0 ≤ batch.lastOffsetDelta.toInt ∧ lastOffset batch < i64Max)
    (hordered : ∀ b ∈ rest, lastOffset batch ≤ lastOffset b)
    (hcover : Covers before (done ++ batch :: rest) after entries) :
    ∃ reached', FilterInv before done rest entries (filter.reach batch) reached' ∧
      reached ≤ reached' ∧ (0 ≤ batch.producerId → reached' = lastOffset batch) := by
  have hahead := h.ahead batch List.mem_cons_self
  unfold BatchFilter.reach
  by_cases hid : 0 ≤ batch.producerId
  · rw [if_pos ⟨h.level, hid⟩]
    obtain ⟨hqueue, hsorted, hset⟩ := activate_spec (batchLast batch) filter.aborted
      filter.disowned h.sorted
    have hle : ∀ entry : AbortedTransaction, entry.firstOffset ≤ batchLast batch ↔
        entry.firstOffset.toInt ≤ lastOffset batch := by
      intro entry
      rw [Int64.le_iff_toInt_le, batchLast_toInt hplaced]
    refine ⟨lastOffset batch, ⟨h.level, ?_, hsorted, ?_, hordered, ?_⟩, hahead, fun _ => rfl⟩
    · intro entry
      show entry ∈ (BatchFilter.activate _ _ _).1 ↔ _
      rw [hqueue, h.queue, hle]
      constructor
      · rintro ⟨⟨hmem, _⟩, hlt⟩
        exact ⟨hmem, by omega⟩
      · rintro ⟨hmem, hlt⟩
        exact ⟨⟨hmem, by omega⟩, by omega⟩
    · intro b hb hpid
      exact Int.le_trans (h.walked b hb hpid) hahead
    · intro producerId
      show producerId ∈ (BatchFilter.activate _ _ _).2 ↔ _
      rw [hset, h.disowned]
      constructor
      · rintro (⟨entry, hmem, heq, hin, hopen⟩ | ⟨entry, hmem, hin, heq⟩)
        · exact ⟨entry, hmem, heq, Int.le_trans hin hahead, hopen⟩
        · obtain ⟨hmem, hnew⟩ := (h.queue entry).mp hmem
          obtain ⟨hpid, hbefore, _⟩ := hcover.sound entry hmem
          refine ⟨entry, hmem, heq, (hle entry).mp hin, Unended.append.mpr ⟨hbefore, ?_⟩⟩
          intro c hc hcontrols
          have := h.walked c hc (hcontrols.2 ▸ hpid)
          omega
      · rintro ⟨entry, hmem, heq, hin, hopen⟩
        by_cases hold : entry.firstOffset.toInt ≤ reached
        · exact .inl ⟨entry, hmem, heq, hold, hopen⟩
        · exact .inr ⟨entry, (h.queue entry).mpr ⟨hmem, by omega⟩, (hle entry).mpr hin, heq⟩
  · rw [if_neg fun hc => hid hc.2]
    exact ⟨reached, ⟨h.level, h.queue, h.sorted, h.walked,
      fun b hb => h.ahead b (List.mem_cons_of_mem _ hb), h.disowned⟩, Int.le_refl _,
      fun hc => absurd hc hid⟩

/-- The batch walked: an entry stays in force unless the batch ends it. -/
theorem FilterInv.walk (h : FilterInv before done rest entries filter reached)
    (hreached : 0 ≤ batch.producerId → reached = lastOffset batch) (disowned : List Int64)
    (hset : ∀ producerId, producerId ∈ disowned ↔ ∃ entry ∈ entries,
      entry.producerId = producerId ∧ entry.firstOffset.toInt ≤ reached ∧
      Unended entry (before ++ done) ∧
      (Controls entry.producerId batch → lastOffset batch < entry.firstOffset.toInt)) :
    FilterInv before (done ++ [batch]) rest entries { filter with disowned } reached := by
  refine ⟨h.level, h.queue, h.sorted, ?_, h.ahead, ?_⟩
  · intro b hb hpid
    rcases List.mem_append.mp hb with hb | hb
    · exact h.walked b hb hpid
    · obtain rfl := List.mem_singleton.mp hb
      exact Int.le_of_eq (hreached hpid).symm
  · intro producerId
    have hlast : ∀ entry, Unended entry (before ++ (done ++ [batch])) ↔
        Unended entry (before ++ done) ∧
          (Controls entry.producerId batch → lastOffset batch < entry.firstOffset.toInt) := by
      intro entry
      rw [← List.append_assoc, Unended.append]
      simp [Unended]
    simp only [hlast]
    exact hset producerId

theorem ValidLog.behind (h : ValidLog (before ++ (done ++ batch :: rest) ++ after)) :
    ∀ b ∈ rest ++ after, lastOffset batch < lastOffset b := by
  intro b hb
  have hpair := h.ordered
  rw [List.append_assoc, List.append_assoc, List.cons_append, List.pairwise_append,
    List.pairwise_append, List.pairwise_cons] at hpair
  have hlt := hpair.2.1.2.1.1 b hb
  have hplaced := h.placed b (by
    simp only [List.append_assoc, List.mem_append, List.cons_append, List.mem_cons] at hb ⊢
    exact .inr (.inr (.inr hb)))
  have : firstOffset b ≤ lastOffset b := by
    unfold firstOffset lastOffset
    omega
  omega

theorem Covers.abortedFrom (hcover : Covers before (done ++ batch :: rest) after entries)
    {entry : AbortedTransaction} (hentry : entry ∈ entries)
    (hopen : Unended entry (before ++ done)) :
    0 ≤ entry.producerId ∧ AbortedFrom entry (batch :: (rest ++ after)) := by
  obtain ⟨hpid, _, hfrom⟩ := hcover.sound entry hentry
  rw [List.append_assoc] at hfrom
  exact ⟨hpid, hfrom.of_append (Unended.append.mp hopen).2⟩

/-- A control batch ends the entries in force of its producer, by aborting. -/
theorem Covers.ended (hcover : Covers before (done ++ batch :: rest) after entries)
    (hreached : 0 ≤ batch.producerId → reached = lastOffset batch) {entry : AbortedTransaction}
    (hentry : entry ∈ entries) (hopen : Unended entry (before ++ done))
    (hin : entry.firstOffset.toInt ≤ reached) (hcontrols : Controls entry.producerId batch) :
    entry.firstOffset.toInt ≤ lastOffset batch ∧ ending? batch = some .abort := by
  obtain ⟨hpid, hfrom⟩ := hcover.abortedFrom hentry hopen
  have hle : entry.firstOffset.toInt ≤ lastOffset batch := hreached (hcontrols.2 ▸ hpid) ▸ hin
  rw [AbortedFrom, if_pos ⟨hcontrols, hle⟩] at hfrom
  exact ⟨hle, hfrom⟩

/-- A data batch's producer is disowned when its transaction ends in an abort. -/
theorem FilterInv.disowned_iff (h : FilterInv before done rest entries filter reached)
    (hreached : reached = lastOffset batch) (hwritten : WrittenIn batch.producerId batch)
    (hbehind : ∀ b ∈ rest ++ after, lastOffset batch < lastOffset b)
    (hcover : Covers before (done ++ batch :: rest) after entries) :
    batch.producerId ∈ filter.disowned ↔
      endsInAbort batch.producerId (rest ++ after) = true := by
  rw [h.disowned]
  constructor
  · rintro ⟨entry, hentry, heq, hin, hopen⟩
    obtain ⟨_, hfrom⟩ := hcover.abortedFrom hentry hopen
    rw [AbortedFrom, if_neg fun hc => absurd hc.1.1 (by simp [hwritten.1])] at hfrom
    rw [← heq]
    refine hfrom.endsInAbort fun b hb => ?_
    have := hbehind b hb
    omega
  · intro habort
    obtain ⟨entry, hentry, heq, hin, hopen⟩ := hcover.complete done batch rest rfl hwritten habort
    exact ⟨entry, hentry, heq, hreached ▸ hin, hopen⟩

/-- The step: the filter answers as the log says, and its invariant moves on. -/
theorem FilterInv.keeps (h : FilterInv before done (batch :: rest) entries filter reached)
    (hlog : ValidLog (before ++ (done ++ batch :: rest) ++ after))
    (hcover : Covers before (done ++ batch :: rest) after entries) :
    (filter.keeps batch).1 = visible .readCommitted batch (rest ++ after) ∧
      ∃ reached',
        FilterInv before (done ++ [batch]) rest entries (filter.keeps batch).2 reached' := by
  have hmem : batch ∈ before ++ (done ++ batch :: rest) ++ after := by simp
  have hbehind := hlog.behind
  obtain ⟨reached', hinv, _, hreached⟩ := h.reach (hlog.placed batch hmem)
    (fun b hb => Int.le_of_lt (hbehind b (List.mem_append_left _ hb))) hcover
  unfold BatchFilter.keeps
  simp only
  by_cases hcontrol : batch.isControl = true
  · have hvisible : visible .readCommitted batch (rest ++ after) = false := by
      simp [visible, hcontrol]
    rw [if_pos hcontrol]
    by_cases habort : (filter.reach batch).readCommitted ∧ isAbortMarker batch
    · rw [if_pos habort]
      refine ⟨hvisible.symm, reached', hinv.walk hreached _ ?_⟩
      intro producerId
      simp only [List.mem_filter, hinv.disowned, decide_eq_true_eq]
      constructor
      · rintro ⟨⟨entry, hentry, heq, hin, hopen⟩, hne⟩
        exact ⟨entry, hentry, heq, hin, hopen, fun hc => absurd (heq.symm.trans hc.2.symm) hne⟩
      · rintro ⟨entry, hentry, heq, hin, hopen, hlast⟩
        refine ⟨⟨entry, hentry, heq, hin, hopen⟩, ?_⟩
        rintro rfl
        have hcontrols : Controls entry.producerId batch := ⟨hcontrol, heq.symm⟩
        have hlt := hlast hcontrols
        have hle := (hcover.ended hreached hentry hopen hin hcontrols).1
        omega
    · -- A commit: no entry of the producer is in force, or it would end in an abort.
      rw [if_neg habort]
      refine ⟨hvisible.symm, reached', hinv.walk hreached (filter.reach batch).disowned ?_⟩
      intro producerId
      rw [hinv.disowned]
      constructor
      · rintro ⟨entry, hentry, heq, hin, hopen⟩
        refine ⟨entry, hentry, heq, hin, hopen, fun hcontrols => ?_⟩
        have hending := (hcover.ended hreached hentry hopen hin hcontrols).2
        exact absurd ⟨hinv.level, isAbortMarker_of_ending hending⟩ habort
      · rintro ⟨entry, hentry, heq, hin, hopen, _⟩
        exact ⟨entry, hentry, heq, hin, hopen⟩
  · rw [if_neg hcontrol]
    refine ⟨?_, reached', hinv.walk hreached (filter.reach batch).disowned ?_⟩
    · have hdata : batch.isControl = false := by simpa using hcontrol
      cases htxn : batch.isTransactional with
      | false => simp [visible, hdata, htxn]
      | true =>
          have hiff := hinv.disowned_iff (hreached (hlog.producers batch hmem htxn))
            ⟨hdata, htxn, rfl⟩ hbehind hcover
          have hcontains : (filter.reach batch).disowned.contains batch.producerId =
              endsInAbort batch.producerId (rest ++ after) := by
            rw [Bool.eq_iff_iff, List.contains_iff_mem]
            exact hiff
          rw [hinv.level, hcontains, visible, hdata, htxn]
          rfl
    · intro producerId
      rw [hinv.disowned]
      constructor
      · rintro ⟨entry, hentry, heq, hin, hopen⟩
        exact ⟨entry, hentry, heq, hin, hopen, fun hc => absurd hc.1 hcontrol⟩
      · rintro ⟨entry, hentry, heq, hin, hopen, _⟩
        exact ⟨entry, hentry, heq, hin, hopen⟩

/-- The run: the rest of the range surfaces as the log says. -/
theorem FilterInv.surfaced (h : FilterInv before done rest entries filter reached)
    (hlog : ValidLog (before ++ (done ++ rest) ++ after))
    (hcover : Covers before (done ++ rest) after entries) :
    filter.surfaced rest = visibleBatches .readCommitted after rest := by
  induction rest generalizing done filter reached with
  | nil => rfl
  | cons batch rest ih =>
      obtain ⟨hkept, reached', hinv⟩ := h.keeps hlog hcover
      have hrest := ih hinv (by simpa using hlog) (by simpa using hcover)
      rw [BatchFilter.surfaced, visibleBatches, ← hkept, ← hrest]

/-- Before the first batch nothing is in force. -/
theorem FilterInv.new (hlog : ValidLog (before ++ rest ++ after))
    (aborted : Option (List AbortedTransaction)) :
    FilterInv before [] rest (aborted.getD [])
      (BatchFilter.new .readCommitted aborted) (Int64.minValue.toInt - 1) := by
  have hlow := fun x : Int64 => x.minValue_le_toInt
  refine ⟨rfl, ?_, ?_, fun b hb => absurd hb List.not_mem_nil, ?_, ?_⟩
  · intro entry
    have := hlow entry.firstOffset
    simp only [BatchFilter.new, beq_self_eq_true, if_true, List.mem_insertionSort]
    exact ⟨fun h => ⟨h, by omega⟩, fun h => h.1⟩
  · have htotal : Std.Total fun a b : AbortedTransaction => a.firstOffset ≤ b.firstOffset :=
      ⟨fun a b => Int64.le_total a.firstOffset b.firstOffset⟩
    have htrans : IsTrans AbortedTransaction fun a b => a.firstOffset ≤ b.firstOffset :=
      ⟨fun _ _ _ => Int64.le_trans⟩
    exact List.pairwise_insertionSort _ _
  · intro b hb
    have hplaced := hlog.placed b (by simp [hb])
    have := hlow b.baseOffset
    unfold lastOffset
    omega
  · intro producerId
    simp only [BatchFilter.new, List.not_mem_nil, false_iff]
    rintro ⟨entry, _, _, hle, _⟩
    have := hlow entry.firstOffset
    omega

end Invariant

end Odradek.Client
