import Mathlib.Algebra.Group.Int.Defs
import Odradek.Client.Producer
import Odradek.Protocol.WireRoundTrip

/-!
The sequence numbers of a partition over any run of stamps and rewinds. They
stay where the broker wants them as long as no batch runs past `i32::MAX`; the
batch that does leaves a counter below zero behind, where the numbering should
have gone on at 0.
-/

namespace Odradek.Client

open Library Protocol

/-- The producer, and every stamp it issued, with the records of its batch. -/
structure Numbering where
  producer : Producer
  issued : List (PartitionKey × Nat × BatchStamp)

namespace Numbering

inductive Op
  | stamp (identity : ProducerIdentity) (key : PartitionKey) (records : Nat) (transactional : Bool)
  /-- The batch of an issued stamp failed. -/
  | rewind (issued : Nat)

/-- The sequence the next batch of a partition takes. -/
def next (s : Numbering) (key : PartitionKey) : Int32 :=
  (s.producer.sequences.lookup key).getD 0

def step (s : Numbering) : Op → Numbering
  | .stamp identity key records transactional =>
    let taken := nextStamp identity s.producer.sequences key records transactional
    { producer := { s.producer with sequences := taken.2 }
      issued := s.issued ++ [(key, records, taken.1)] }
  | .rewind i =>
    match s.issued[i]? with
    | some (key, _, stamp) => { s with producer := s.producer.rewind key (some stamp) }
    | none => s

/-- What holds of every operation of a run, in the state it meets. -/
def Throughout (P : Numbering → Op → Prop) : Numbering → List Op → Prop
  | _, [] => True
  | s, op :: ops => P s op ∧ Throughout P (s.step op) ops

/-- The stamp's sequence is in range, and the next one is its sum with the
record count, modulo 2^31. -/
def Wraps (s : Numbering) : Op → Prop
  | .stamp identity key records transactional =>
    let base := (nextStamp identity s.producer.sequences key records transactional).1.baseSequence
    0 ≤ base.toInt ∧ base.toInt ≤ i32Max ∧
      ((s.step (.stamp identity key records transactional)).next key).toInt =
        (base.toInt + records) % 2 ^ 31
  | .rewind _ => True

def Fits (s : Numbering) : Op → Prop
  | .stamp _ key records _ => (s.next key).toInt + records ≤ i32Max
  | .rewind _ => True

/-- At most `i32::MAX` records, as a batch can carry. -/
def Sized : Op → Prop
  | .stamp _ _ records _ => records ≤ i32Max
  | .rewind _ => True

/-- No counter and no issued stamp is below zero. -/
structure InRange (s : Numbering) : Prop where
  counters : ∀ key, 0 ≤ (s.next key).toInt
  stamps : ∀ e ∈ s.issued, 0 ≤ e.2.2.baseSequence.toInt

variable {s : Numbering}

theorem next_insert_self {key : PartitionKey} {value : Int32}
    {sequences : AList fun _ : PartitionKey => Int32} :
    ((sequences.insert key value).lookup key).getD 0 = value := by
  rw [AList.lookup_insert]
  rfl

theorem next_stamp {identity : ProducerIdentity} {key : PartitionKey} {records : Nat}
    {transactional : Bool} :
    (s.step (.stamp identity key records transactional)).next key =
      s.next key + saturatingI32 records :=
  next_insert_self

theorem next_stamp_ne {identity : ProducerIdentity} {key other : PartitionKey} {records : Nat}
    {transactional : Bool} (h : other ≠ key) :
    (s.step (.stamp identity key records transactional)).next other = s.next other := by
  simp only [step, nextStamp, next, AList.lookup_insert_ne h]

theorem toInt_saturatingI32 (records : Nat) :
    (saturatingI32 records).toInt = (min records i32Max : Nat) :=
  (int32_ofNat (Nat.min_le_right _ _)).1

/-- A batch that fits advances the counter by its records. -/
theorem next_stamp_fits {identity : ProducerIdentity} {key : PartitionKey} {records : Nat}
    {transactional : Bool} (hrange : 0 ≤ (s.next key).toInt)
    (hfits : s.Fits (.stamp identity key records transactional)) :
    ((s.step (.stamp identity key records transactional)).next key).toInt =
      (s.next key).toInt + records := by
  unfold Fits i32Max at hfits
  have hsum := toInt_saturatingI32 records
  rw [next_stamp, Int32.toInt_add, hsum, Int.bmod_eq_of_le] <;> unfold i32Max <;> omega

/-- One that runs past the end leaves the counter below zero. -/
theorem next_stamp_over {identity : ProducerIdentity} {key : PartitionKey} {records : Nat}
    {transactional : Bool} (hsized : records ≤ i32Max)
    (hover : ¬ s.Fits (.stamp identity key records transactional)) :
    ((s.step (.stamp identity key records transactional)).next key).toInt < 0 := by
  have hle := (s.next key).toInt_le
  have hmax : Int32.maxValue.toInt = 2147483647 := rfl
  unfold Fits i32Max at hover
  unfold i32Max at hsized
  have hsum := toInt_saturatingI32 records
  unfold i32Max at hsum
  rw [next_stamp, Int32.toInt_add, hsum, Int.bmod_def]
  split <;> omega

/-- A batch that fits takes its numbers without a wrap. -/
theorem Fits.wraps {op : Op} (h : s.Fits op) (hrange : s.InRange) : s.Wraps op := by
  cases op with
  | rewind i => exact trivial
  | stamp identity key records transactional =>
      have hnonneg := hrange.counters key
      have hle := (s.next key).toInt_le
      have hmax : Int32.maxValue.toInt = 2147483647 := rfl
      have hbase : (s.next key).toInt ≤ i32Max := by
        unfold i32Max
        omega
      refine ⟨hnonneg, hbase, ?_⟩
      rw [next_stamp_fits hnonneg h]
      show _ = ((s.next key).toInt + records) % 2 ^ 31
      unfold Fits i32Max at h
      omega

theorem Wraps.fits {op : Op} (h : s.Wraps op) (hsized : Sized op) : s.Fits op := by
  cases op with
  | rewind i => exact trivial
  | stamp identity key records transactional =>
      obtain ⟨_, _, hnext⟩ := h
      refine Classical.not_not.mp fun hover => ?_
      have hneg := next_stamp_over hsized hover
      omega

theorem InRange.step {op : Op} (h : s.InRange) (hfits : s.Fits op) : (s.step op).InRange := by
  cases op with
  | stamp identity key records transactional =>
      refine ⟨fun other => ?_, ?_⟩
      · by_cases hkey : other = key
        · subst hkey
          have hnonneg := h.counters other
          rw [next_stamp_fits hnonneg hfits]
          omega
        · rw [next_stamp_ne hkey]
          exact h.counters other
      · intro e he
        obtain he | he := List.mem_append.mp he
        · exact h.stamps e he
        · obtain rfl := List.mem_singleton.mp he
          exact h.counters key
  | rewind i =>
      simp only [Numbering.step]
      cases hissued : s.issued[i]? with
      | none => exact h
      | some e =>
          refine ⟨fun other => ?_, h.stamps⟩
          by_cases hkey : other = e.1
          · subst hkey
            show 0 ≤ (((s.producer.sequences.insert e.1 e.2.2.baseSequence).lookup e.1).getD
              0).toInt
            rw [next_insert_self]
            exact h.stamps e (List.mem_of_getElem? hissued)
          · show 0 ≤ (((s.producer.sequences.insert e.1 e.2.2.baseSequence).lookup other).getD
              0).toInt
            rw [AList.lookup_insert_ne hkey]
            exact h.counters other

def fresh (config : ProducerConfig) : Numbering :=
  { producer := .withConfig config, issued := [] }

theorem InRange.fresh (config : ProducerConfig) : (fresh config).InRange :=
  ⟨fun _ => Int.le_refl 0, fun _ h => absurd h List.not_mem_nil⟩

theorem throughout_wraps {ops : List Op} (hrange : s.InRange) (h : Throughout Fits s ops) :
    Throughout Wraps s ops := by
  induction ops generalizing s with
  | nil => exact trivial
  | cons op ops ih => exact ⟨h.1.wraps hrange, ih (hrange.step h.1) h.2⟩

theorem throughout_fits {ops : List Op} (hsized : ∀ op ∈ ops, Sized op) (hrange : s.InRange)
    (h : Throughout Wraps s ops) : Throughout Fits s ops := by
  induction ops generalizing s with
  | nil => exact trivial
  | cons op ops ih =>
      have hfits := h.1.fits (hsized op List.mem_cons_self)
      exact ⟨hfits, ih (fun o ho => hsized o (List.mem_cons_of_mem _ ho)) (hrange.step hfits) h.2⟩

/-- Sequences stay in range and wrap to 0 in every run whose batches all fit
below `i32::MAX`, and in no other run of batches that can be encoded. -/
theorem numbering_wraps_iff (config : ProducerConfig) (ops : List Op) :
    (Throughout Fits (fresh config) ops → Throughout Wraps (fresh config) ops) ∧
    ((∀ op ∈ ops, Sized op) → Throughout Wraps (fresh config) ops →
      Throughout Fits (fresh config) ops) :=
  ⟨throughout_wraps (.fresh config), fun hsized => throughout_fits hsized (.fresh config)⟩

/-- A batch that ends on `i32::MAX`, one of one record, and the next. -/
theorem numbering_below_zero :
    ¬ ∀ (config : ProducerConfig) (ops : List Op), Throughout Wraps (fresh config) ops := by
  intro h
  obtain ⟨_, _, hthird, _⟩ := h ProducerConfig.default
    [.stamp ⟨7, 0⟩ ("t", 0) i32Max false, .stamp ⟨7, 0⟩ ("t", 0) 1 false,
      .stamp ⟨7, 0⟩ ("t", 0) 1 false]
  exact absurd hthird.1 (by decide)

end Numbering

end Odradek.Client
