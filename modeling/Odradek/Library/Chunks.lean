import Mathlib.Data.List.Basic

/-!
Lists cut into pieces of one length, and written pieces cut short: what is left is
some whole pieces, or some whole pieces and the beginning of one more.
-/

namespace Library

variable {α β : Type}

def chunks (n : Nat) (items : List α) : List (List α) :=
  if _stop : n = 0 ∨ items = [] then []
  else items.take n :: chunks n (items.drop n)
termination_by items.length
decreasing_by
  have hlength := List.length_pos_of_ne_nil (not_or.mp _stop).2
  rw [List.length_drop]
  omega

theorem chunks_nil (n : Nat) : chunks n ([] : List α) = [] := by
  rw [chunks, dif_pos (.inr rfl)]

theorem chunks_of_ne_nil {n : Nat} {items : List α} (hn : 0 < n) (h : items ≠ []) :
    chunks n items = items.take n :: chunks n (items.drop n) := by
  rw [chunks, dif_neg (by rw [not_or]; exact ⟨by omega, h⟩)]

theorem length_le_of_mem_chunks {n : Nat} {items piece : List α} (h : piece ∈ chunks n items) :
    piece.length ≤ n := by
  induction items using chunks.induct n with
  | case1 items hstop =>
      rw [chunks, dif_pos hstop] at h
      cases h
  | case2 items hgo ih =>
      rw [chunks, dif_neg hgo] at h
      rcases List.mem_cons.mp h with rfl | h
      · rw [List.length_take]
        omega
      · exact ih h

/-- The first pieces are the front of the list. -/
theorem flatten_take_chunks {n : Nat} (hn : 0 < n) (items : List α) (k : Nat) :
    ((chunks n items).take k).flatten = items.take (k * n) := by
  induction k generalizing items with
  | zero => rw [List.take_zero, Nat.zero_mul, List.take_zero, List.flatten_nil]
  | succ k ih =>
      by_cases hnil : items = []
      · rw [hnil, chunks_nil, List.take_nil, List.take_nil, List.flatten_nil]
      · rw [chunks_of_ne_nil hn hnil, List.take_succ_cons, List.flatten_cons, ih, Nat.succ_mul,
          Nat.add_comm, List.take_add]

theorem flatten_chunks {n : Nat} (hn : 0 < n) (items : List α) :
    (chunks n items).flatten = items := by
  have hall := flatten_take_chunks hn items (max (chunks n items).length items.length)
  rw [List.take_of_length_le (Nat.le_max_left _ _), List.take_of_length_le] at hall
  · exact hall
  · exact Nat.le_trans (Nat.le_max_right _ _) (Nat.le_mul_of_pos_right _ hn)

theorem take_flatMap_take (put : β → List α) (pieces : List β) (k : Nat) (rest : List α) :
    (pieces.flatMap put ++ rest).take ((pieces.take k).flatMap put).length =
      (pieces.take k).flatMap put := by
  have hsplit : pieces.flatMap put = (pieces.take k).flatMap put ++
    (pieces.drop k).flatMap put := by
    rw [← List.flatMap_append, List.take_append_drop]
  rw [hsplit, List.append_assoc, List.take_left]

/-- Where a cut that is not between two pieces falls. -/
theorem take_flatMap_within {put : β → List α} {pieces : List β} {n : Nat}
    (hn : n < (pieces.flatMap put).length)
    (hcut : ∀ k, n ≠ ((pieces.take k).flatMap put).length) :
    ∃ k piece part, piece ∈ pieces ∧ part <+: put piece ∧ part ≠ [] ∧
      part.length < (put piece).length ∧
      (pieces.flatMap put).take n = (pieces.take k).flatMap put ++ part := by
  induction pieces generalizing n with
  | nil => exact absurd hn (Nat.not_lt_zero n)
  | cons piece pieces ih =>
      rw [List.flatMap_cons] at hn ⊢
      rw [List.length_append] at hn
      by_cases hfirst : n < (put piece).length
      · have hzero : n ≠ 0 := hcut 0
        refine ⟨0, piece, (put piece).take n, List.mem_cons_self, List.take_prefix _ _, ?_, ?_, ?_⟩
        · intro hnil
          have hlength := congrArg List.length hnil
          rw [List.length_take, List.length_nil] at hlength
          omega
        · rw [List.length_take]
          omega
        · rw [List.take_append_of_le_length (Nat.le_of_lt hfirst)]
          rfl
      · obtain ⟨k, other, part, hmem, hbefore, hne, hshort, htake⟩ :=
          ih (n := n - (put piece).length) (by omega) fun k heq => hcut (k + 1) (by
            rw [List.take_succ_cons, List.flatMap_cons, List.length_append]
            omega)
        refine ⟨k + 1, other, part, List.mem_cons_of_mem _ hmem, hbefore, hne, hshort, ?_⟩
        rw [List.take_append, List.take_of_length_le (by omega), htake, List.take_succ_cons,
          List.flatMap_cons, List.append_assoc]

end Library
