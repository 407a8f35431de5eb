import Mathlib.Data.List.TakeDrop

/-!
Lists cut at a separator. What lies between two separators has none, and pieces
without one come back from the list that joins them.
-/

namespace Library

variable {α : Type} [DecidableEq α] {sep : α}

theorem not_mem_of_mem_splitOn {items piece : List α} (h : piece ∈ items.splitOn sep) :
    sep ∉ piece := by
  induction items generalizing piece with
  | nil =>
      rw [List.splitOn_nil, List.mem_singleton] at h
      rw [h]
      exact List.not_mem_nil
  | cons a items ih =>
      rw [List.splitOn_cons_eq_if_modifyHead] at h
      by_cases ha : a = sep
      · rw [if_pos (by simpa using ha)] at h
        rcases List.mem_cons.mp h with rfl | h
        · exact List.not_mem_nil
        · exact ih h
      · rw [if_neg (by simpa using ha)] at h
        cases hpieces : items.splitOn sep with
        | nil => exact absurd hpieces (List.splitOn_ne_nil _ _)
        | cons first pieces =>
            rw [hpieces, List.modifyHead_cons] at h
            rcases List.mem_cons.mp h with rfl | h
            · rw [List.mem_cons, not_or]
              exact ⟨Ne.symm ha, ih (hpieces ▸ List.mem_cons_self)⟩
            · exact ih (hpieces ▸ List.mem_cons_of_mem _ h)

/-- Pieces that each end in a separator, and what follows the last. -/
theorem splitOn_flatMap_append {β : Type} {piece : β → List α} {pieces : List β}
    (h : ∀ b ∈ pieces, sep ∉ piece b) (rest : List α) :
    (pieces.flatMap (fun b => piece b ++ [sep]) ++ rest).splitOn sep =
      pieces.map piece ++ rest.splitOn sep := by
  induction pieces with
  | nil => rfl
  | cons b pieces ih =>
      have hrest := ih fun b hb => h b (List.mem_cons_of_mem _ hb)
      rw [List.flatMap_cons, List.append_assoc, List.append_assoc, List.singleton_append,
        List.splitOn_append_cons_self_of_not_mem (h b List.mem_cons_self), hrest]
      rfl

/-- At most this many pieces; the last keeps its separators. -/
def splitN (sep : α) : Nat → List α → List (List α)
  | 0, _ => []
  | 1, items => [items]
  | n + 2, items =>
    match items.span (· ≠ sep) with
    | (piece, []) => [piece]
    | (piece, _ :: rest) => piece :: splitN sep (n + 1) rest

theorem splitN_append {piece : List α} (n : Nat) (rest : List α) (h : sep ∉ piece) :
    splitN sep (n + 2) (piece ++ sep :: rest) = piece :: splitN sep (n + 1) rest := by
  have hpiece : ∀ a ∈ piece, decide (a ≠ sep) = true := fun a ha =>
    decide_eq_true fun heq => h (heq ▸ ha)
  have hspan : (piece ++ sep :: rest).span (· ≠ sep) = (piece, sep :: rest) := by
    rw [List.span_eq_takeWhile_dropWhile, List.takeWhile_append_of_pos hpiece,
      List.dropWhile_append_of_pos hpiece, List.takeWhile_cons_of_neg (by simp),
      List.dropWhile_cons_of_neg (by simp), List.append_nil]
  rw [splitN, hspan]

end Library
