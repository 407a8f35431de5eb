import Odradek.Client.ReadCommitted
import Mathlib.Data.List.Induction

/-!
Isolation: with the aborted list of the fetched range, in whatever order it
comes, the filter surfaces exactly the batches of committed transactions and
the batches outside any.
-/

namespace Odradek.Client

open Odradek.Protocol

section Coverage

variable {before fetched after log : List RecordBatch} {entries : List AbortedTransaction}
  {entry : AbortedTransaction} {marker : RecordBatch} {start stop : Int}

/-- An ending that aborts is the producer's first control batch. -/
theorem endsInAbort_split {producerId : Int64} {log : List RecordBatch}
    (h : endsInAbort producerId log = true) :
    ∃ middle marker back, log = middle ++ marker :: back ∧
      (∀ batch ∈ middle, ¬ Controls producerId batch) ∧ Controls producerId marker ∧
      ending? marker = some .abort := by
  induction log with
  | nil => cases h
  | cons batch log ih =>
      rw [endsInAbort] at h
      by_cases hcontrols : Controls producerId batch
      · rw [if_pos hcontrols] at h
        exact ⟨[], batch, log, rfl, fun b hb => absurd hb List.not_mem_nil, hcontrols,
          by simpa using h⟩
      · rw [if_neg hcontrols] at h
        obtain ⟨middle, marker, back, rfl, hmiddle, hmarker⟩ := ih h
        refine ⟨batch :: middle, marker, back, rfl, ?_, hmarker⟩
        intro b hb
        rcases List.mem_cons.mp hb with rfl | hb
        · exact hcontrols
        · exact hmiddle b hb

theorem AbortedFrom.append {front back : List RecordBatch} (hfront : Unended entry front)
    (h : AbortedFrom entry back) : AbortedFrom entry (front ++ back) := by
  induction front with
  | nil => exact h
  | cons batch front ih =>
      have hbatch : ¬ (Controls entry.producerId batch ∧
          entry.firstOffset.toInt ≤ lastOffset batch) := by
        rintro ⟨hcontrols, hle⟩
        exact absurd (hfront batch List.mem_cons_self hcontrols) (by omega)
      rw [List.cons_append, AbortedFrom, if_neg hbatch]
      exact ih fun b hb => hfront b (List.mem_cons_of_mem _ hb)

theorem ValidLog.around (h : ValidLog log) {front back : List RecordBatch} {batch : RecordBatch}
    (hsplit : log = front ++ batch :: back) :
    (∀ b ∈ front, lastOffset b < firstOffset batch) ∧
      ∀ b ∈ back, lastOffset batch < firstOffset b := by
  have hpair := h.ordered
  rw [hsplit, List.pairwise_append, List.pairwise_cons] at hpair
  exact ⟨fun b hb => hpair.2.2 b hb batch List.mem_cons_self, hpair.2.1.1⟩

theorem ValidLog.first_le_last (h : ValidLog log) {batch : RecordBatch} (hmem : batch ∈ log) :
    firstOffset batch ≤ lastOffset batch := by
  have hplaced := h.placed batch hmem
  unfold firstOffset lastOffset
  omega

/-- Either no transaction is open at the end of a log, or one is, and no control
batch of its producer stands behind its first batch. -/
theorem idle_or_open (producerId : Int64) (log : List RecordBatch) :
    Idle producerId log ∨ ∃ front first middle, log = front ++ first :: middle ∧
      Idle producerId front ∧ WrittenIn producerId first ∧
      ∀ batch ∈ middle, ¬ Controls producerId batch := by
  induction log using List.reverseRecOn with
  | nil =>
      refine .inl fun front batch rest h _ => ?_
      exact absurd h (by simp)
  | append_singleton log last ih =>
      rcases ih with hidle | ⟨front, first, middle, rfl, hidle, hfirst, hmiddle⟩
      · by_cases hlast : WrittenIn producerId last
        · exact .inr ⟨log, last, [], rfl, hidle, hlast, fun b hb => absurd hb List.not_mem_nil⟩
        · refine .inl fun front batch rest h hbatch => ?_
          rcases List.eq_nil_or_concat rest with rfl | ⟨rest, x, rfl⟩
          · obtain ⟨_, hx⟩ := List.append_inj' h rfl
            cases hx
            exact absurd hbatch hlast
          · rw [List.concat_eq_append, ← List.cons_append, ← List.append_assoc] at h
            obtain ⟨hlog, _⟩ := List.append_inj' h rfl
            obtain ⟨control, hmem, hcontrols⟩ := hidle front batch rest hlog hbatch
            exact ⟨control, by simp [hmem], hcontrols⟩
      · by_cases hlast : Controls producerId last
        · refine .inl fun front' batch rest h hbatch => ?_
          rcases List.eq_nil_or_concat rest with rfl | ⟨rest, x, rfl⟩
          · obtain ⟨_, hx⟩ := List.append_inj' h rfl
            cases hx
            exact absurd hbatch.1 (by simp [hlast.1])
          · rw [List.concat_eq_append, ← List.cons_append, ← List.append_assoc] at h
            obtain ⟨_, hx⟩ := List.append_inj' h rfl
            cases hx
            exact ⟨last, by simp, hlast⟩
        · refine .inr ⟨front, first, middle ++ [last], by simp, hidle, hfirst, ?_⟩
          intro b hb
          rcases List.mem_append.mp hb with hb | hb
          · exact hmiddle b hb
          · obtain rfl := List.mem_singleton.mp hb
            exact hlast

/-- The control batches around an aborted transaction. -/
theorem AbortedIn.unended {front middle : List RecordBatch} {first : RecordBatch}
    (hbase : first.baseOffset = entry.firstOffset) (hfirst : WrittenIn entry.producerId first)
    (hbefore : ∀ b ∈ front, lastOffset b < firstOffset first)
    (hmiddle : ∀ b ∈ middle, ¬ Controls entry.producerId b) :
    Unended entry (front ++ first :: middle) := by
  intro b hb hcontrols
  rcases List.mem_append.mp hb with hb | hb
  · rw [← hbase]
    exact hbefore b hb
  · rcases List.mem_cons.mp hb with rfl | hb
    · exact absurd hcontrols.1 (by simp [hfirst.1])
    · exact absurd hcontrols (hmiddle b hb)

/-- The aborted list of a range covers it. -/
theorem AbortedList.covers (h : AbortedList (before ++ fetched ++ after) start stop entries)
    (hlog : ValidLog (before ++ fetched ++ after)) (hbefore : ∀ b ∈ before, lastOffset b < start)
    (hfetched : ∀ b ∈ fetched, start ≤ lastOffset b ∧ lastOffset b ≤ stop) :
    Covers before fetched after entries := by
  refine ⟨?_, ?_⟩
  · intro entry hentry
    obtain ⟨marker, ⟨front, first, middle, back, hsplit, _, hfirst, hbase, hmiddle, hmarker,
      hending⟩, hstart, _⟩ := (h entry).mp hentry
    have haround := hlog.around hsplit
    have hunended := AbortedIn.unended hbase hfirst haround.1 hmiddle
    have hsplit' : before ++ fetched ++ after = (front ++ first :: middle) ++ marker :: back := by
      rw [hsplit]
      simp
    have hmark := hlog.around hsplit'
    have hmem : marker ∈ before ++ fetched ++ after := by simp [hsplit']
    have hpast : entry.firstOffset.toInt ≤ lastOffset marker := by
      have hlt := haround.2 marker (by simp)
      have hle := hlog.first_le_last (by simp [hsplit] : first ∈ before ++ fetched ++ after)
      have := hlog.first_le_last hmem
      rw [← hbase]
      unfold firstOffset at *
      omega
    have hopen : Unended entry before := by
      intro b hb hcontrols
      have hb' : b ∈ (front ++ first :: middle) ++ marker :: back := by
        rw [← hsplit']
        simp [hb]
      have hlt := hbefore b hb
      rcases List.mem_append.mp hb' with hb' | hb'
      · exact hunended b hb' hcontrols
      · rcases List.mem_cons.mp hb' with rfl | hb'
        · omega
        · have := hmark.2 b hb'
          have := hlog.first_le_last (by simp [hb] : b ∈ before ++ fetched ++ after)
          omega
    refine ⟨?_, hopen, ?_⟩
    · rw [← hfirst.2.2]
      exact hlog.producers first (by simp [hsplit]) hfirst.2.1
    · have hfrom : AbortedFrom entry (before ++ fetched ++ after) := by
        rw [hsplit']
        refine AbortedFrom.append hunended ?_
        rw [AbortedFrom, if_pos ⟨hmarker, hpast⟩]
        exact hending
      rw [List.append_assoc] at hfrom
      exact hfrom.of_append hopen
  · intro front batch rest hsplit hwritten habort
    obtain ⟨middle, marker, back, hrest, hmiddle, hmarker, hending⟩ := endsInAbort_split habort
    have hopen := idle_or_open batch.producerId ((before ++ front) ++ [batch])
    rcases hopen with hidle | ⟨first', first, middle', heq, hidle, hfirst, hmiddle'⟩
    · obtain ⟨control, hmem, _⟩ := hidle (before ++ front) batch [] rfl hwritten
      exact absurd hmem List.not_mem_nil
    · have hlogeq : before ++ fetched ++ after =
          first' ++ first :: ((middle' ++ middle) ++ marker :: back) := by
        calc before ++ fetched ++ after
            = ((before ++ front) ++ [batch]) ++ (rest ++ after) := by simp [hsplit]
          _ = (first' ++ first :: middle') ++ (middle ++ marker :: back) := by rw [heq, hrest]
          _ = _ := by simp
      have haround := hlog.around hlogeq
      have hbatch : batch ∈ fetched := by simp [hsplit]
      have hsplit' : before ++ fetched ++ after = (before ++ front) ++ batch ::
        (rest ++ after) := by
        simp [hsplit]
      have haround' := hlog.around hsplit'
      have hfirstle : firstOffset first ≤ lastOffset batch := by
        have hmem : first ∈ (before ++ front) ++ [batch] := by simp [heq]
        have hlast := hlog.first_le_last (by simp [hsplit] : batch ∈ before ++ fetched ++ after)
        rcases List.mem_append.mp hmem with hmem | hmem
        · have := haround'.1 first hmem
          have := hlog.first_le_last (by simp [hlogeq] : first ∈ before ++ fetched ++ after)
          omega
        · obtain rfl := List.mem_singleton.mp hmem
          exact hlast
      have hlater : lastOffset batch < lastOffset marker := by
        have := haround'.2 marker (by simp [hrest])
        have := hlog.first_le_last (by simp [hlogeq] : marker ∈ before ++ fetched ++ after)
        omega
      have hends := hfetched batch hbatch
      have hmiddles : ∀ b ∈ middle' ++ middle, ¬ Controls batch.producerId b := by
        intro b hb
        rcases List.mem_append.mp hb with hb | hb
        · exact hmiddle' b hb
        · exact hmiddle b hb
      refine ⟨⟨batch.producerId, first.baseOffset⟩, (h _).mpr ⟨marker, ⟨first', first,
        middle' ++ middle, back, hlogeq, hidle, hfirst, rfl, hmiddles, hmarker, hending⟩,
        by omega, Int.le_trans hfirstle hends.2⟩, rfl, hfirstle, ?_⟩
      have hunended : Unended ⟨batch.producerId, first.baseOffset⟩ (first' ++ first :: middle') :=
        AbortedIn.unended rfl hfirst haround.1 hmiddle'
      rw [← heq] at hunended
      exact (Unended.append.mp hunended).1

end Coverage

section Isolation

variable {before fetched after : List RecordBatch} {start stop : Int}

theorem surfaced_readUncommitted (aborted : List AbortedTransaction) (disowned : List Int64)
    (after batches : List RecordBatch) :
    BatchFilter.surfaced { aborted, disowned, readCommitted := false } batches =
      visibleBatches .readUncommitted after batches := by
  induction batches with
  | nil => rfl
  | cons batch batches ih =>
      have hkeeps : BatchFilter.keeps { aborted, disowned, readCommitted := false } batch =
          (!batch.isControl, { aborted, disowned, readCommitted := false }) := by
        cases hcontrol : batch.isControl <;> simp [BatchFilter.keeps, BatchFilter.reach, hcontrol]
      have hvisible : visible .readUncommitted batch (batches ++ after) = !batch.isControl := by
        simp [visible]
      simp only [BatchFilter.surfaced, visibleBatches, hkeeps, hvisible, ih]

theorem surfaced_of_covers (level : IsolationLevel) (aborted : Option (List AbortedTransaction))
    (hlog : ValidLog (before ++ fetched ++ after))
    (hcover : level = .readCommitted → Covers before fetched after (aborted.getD [])) :
    (BatchFilter.new level aborted).surfaced fetched = visibleBatches level after fetched := by
  cases level with
  | readUncommitted => exact surfaced_readUncommitted _ _ _ _
  | readCommitted => exact (FilterInv.new hlog aborted).surfaced hlog (hcover rfl)

/-- A fetch surfaces the visible batches of its range, in log order. -/
theorem surfaced_eq_visibleBatches (level : IsolationLevel)
    (aborted : Option (List AbortedTransaction))
    (hlog : ValidLog (before ++ fetched ++ after)) (hbefore : ∀ b ∈ before, lastOffset b < start)
    (hfetched : ∀ b ∈ fetched, start ≤ lastOffset b ∧ lastOffset b ≤ stop)
    (haborted : level = .readCommitted →
      AbortedList (before ++ fetched ++ after) start stop (aborted.getD [])) :
    (BatchFilter.new level aborted).surfaced fetched = visibleBatches level after fetched :=
  surfaced_of_covers level aborted hlog fun hlevel =>
    (haborted hlevel).covers hlog hbefore hfetched

section Interleaved

def sampleBatch (offset producerId : Int64) (attributes : Int16) (key : Option Bytes) :
    RecordBatch :=
  { baseOffset := offset
    partitionLeaderEpoch := 0
    attributes
    lastOffsetDelta := 0
    baseTimestamp := 0
    maxTimestamp := 0
    producerId
    producerEpoch := 0
    baseSequence := 0
    records := .plain [{ attributes := 0, timestampDelta := 0, offsetDelta := 0, key
                         value := none, headers := [] }] }

/-- Two producers' transactions interleaved; the first one aborts. -/
def interleaved : List RecordBatch :=
  [sampleBatch 1 7 16 none, sampleBatch 2 8 16 none, sampleBatch 3 7 48 (some [0, 0, 0, 0]),
    sampleBatch 4 8 48 (some [0, 0, 0, 1])]

theorem abortedList_interleaved :
    AbortedList ([sampleBatch 0 (-1) 0 none] ++ interleaved ++ []) 1 4 [⟨7, 1⟩] := by
  intro entry
  constructor
  · intro hentry
    obtain rfl := List.mem_singleton.mp hentry
    refine ⟨sampleBatch 3 7 48 (some [0, 0, 0, 0]), ⟨[sampleBatch 0 (-1) 0 none],
      sampleBatch 1 7 16 none, [sampleBatch 2 8 16 none],
      [sampleBatch 4 8 48 (some [0, 0, 0, 1])], rfl, ?_, ⟨by decide, by decide, by decide⟩, rfl,
      by decide, by decide, by decide⟩, by decide, by decide⟩
    intro front batch rest h hwritten
    have hmem : batch ∈ [sampleBatch 0 (-1) 0 none] := by simp [h]
    obtain rfl := List.mem_singleton.mp hmem
    exact absurd hwritten.2.1 (by decide)
  · rintro ⟨marker, ⟨front, first, middle, back, hsplit, _, hfirst, hbase, _, hmarker, hending⟩,
      _, _⟩
    have habort : ∀ m ∈ [sampleBatch 0 (-1) 0 none] ++ interleaved ++ [],
        ending? m = some .abort → m.producerId = 7 := by decide
    have hwritten : ∀ f ∈ [sampleBatch 0 (-1) 0 none] ++ interleaved ++ [],
        f.isControl = false ∧ f.isTransactional = true ∧ f.producerId = 7 → f.baseOffset = 1 := by
      decide
    have hid : entry.producerId = 7 :=
      hmarker.2.symm.trans (habort marker (by rw [hsplit]; simp) hending)
    have hoffset : entry.firstOffset = 1 :=
      hbase.symm.trans (hwritten first (by rw [hsplit]; simp) (hid ▸ hfirst))
    cases entry
    cases hid
    cases hoffset
    exact List.mem_singleton_self _

theorem validLog_interleaved : ValidLog ([sampleBatch 0 (-1) 0 none] ++ interleaved ++ []) :=
  ⟨by decide, by decide, by decide, by decide⟩

/-- Only the committed transaction's batch surfaces. -/
theorem surfaced_eq_visibleBatches_interleaved :
    (BatchFilter.new .readCommitted (some [⟨7, 1⟩])).surfaced interleaved =
      [sampleBatch 2 8 16 none] :=
  (surfaced_eq_visibleBatches .readCommitted (some [⟨7, 1⟩]) validLog_interleaved (by decide)
    (by decide) fun _ => abortedList_interleaved).trans (by decide)

end Interleaved
end Isolation

end Odradek.Client
