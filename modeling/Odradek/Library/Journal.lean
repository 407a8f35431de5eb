import Mathlib.Data.List.Basic

/-!
Journals that are only appended to, and what holds of each entry given those before
it. Such a property is kept by a new entry that has it.
-/

namespace Library

variable {α : Type} {xs before after : List α} {x y : α} {P : List α → α → Prop}

theorem append_singleton_eq_append_cons (h : xs ++ [x] = before ++ y :: after) :
    (∃ after', xs = before ++ y :: after') ∨ (xs = before ∧ x = y ∧ after = []) := by
  rcases List.eq_nil_or_concat after with rfl | ⟨after', z, rfl⟩
  · obtain ⟨rfl, hxy⟩ := List.append_inj' h rfl
    cases hxy
    exact .inr ⟨rfl, rfl, rfl⟩
  · rw [List.concat_eq_append, ← List.cons_append, ← List.append_assoc] at h
    exact .inl ⟨after', (List.append_inj' h rfl).1⟩

def EachAfter (P : List α → α → Prop) (journal : List α) : Prop :=
  ∀ before x after, journal = before ++ x :: after → P before x

theorem EachAfter.nil : EachAfter P [] := by
  intro before x after h
  cases before <;> cases h

theorem EachAfter.append (h : EachAfter P xs) (hx : P xs x) : EachAfter P (xs ++ [x]) := by
  intro before y after heq
  rcases append_singleton_eq_append_cons heq with ⟨after', hold⟩ | ⟨rfl, rfl, _⟩
  · exact h before y after' hold
  · exact hx

theorem EachAfter.of_append (h : EachAfter P (xs ++ [x])) : EachAfter P xs ∧ P xs x := by
  refine ⟨fun before y after heq => h before y (after ++ [x]) ?_, h xs x [] rfl⟩
  rw [heq, List.append_assoc, List.cons_append]

/-- Entries that have it whatever came before. -/
theorem EachAfter.append_all {ys : List α} (h : EachAfter P xs)
    (hall : ∀ y ∈ ys, ∀ before, P before y) : EachAfter P (xs ++ ys) := by
  induction ys generalizing xs with
  | nil => rwa [List.append_nil]
  | cons y ys ih =>
      have hy := h.append (hall y List.mem_cons_self xs)
      have hrest := ih hy fun other hmem => hall other (List.mem_cons_of_mem _ hmem)
      rwa [List.append_assoc, List.singleton_append] at hrest

end Library
