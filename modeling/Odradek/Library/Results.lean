import Mathlib.Data.List.Forall2

/-!
Sequenced results: what holds of the parts when the whole succeeds.
-/

namespace Library

variable {ε α β : Type}

theorem except_bind_eq_ok {x : Except ε α} {f : α → Except ε β} {b : β} :
    (x >>= f) = .ok b ↔ ∃ a, x = .ok a ∧ f a = .ok b := by
  cases x with
  | error e =>
      show Except.error e = .ok b ↔ _
      simp
  | ok a =>
      show f a = .ok b ↔ _
      simp

/-- A traversal succeeds where each step does. -/
theorem mapM_eq_ok {f : α → Except ε β} {as : List α} {bs : List β} :
    as.mapM f = .ok bs ↔ List.Forall₂ (fun a b => f a = .ok b) as bs := by
  induction as generalizing bs with
  | nil =>
      rw [List.mapM_nil, List.forall₂_nil_left_iff]
      exact ⟨fun h => by cases h; rfl, fun h => by rw [h]; rfl⟩
  | cons a as ih =>
      rw [List.mapM_cons, except_bind_eq_ok]
      constructor
      · rintro ⟨b, hb, h⟩
        obtain ⟨bs, hbs, h⟩ := except_bind_eq_ok.mp h
        cases h
        exact .cons hb (ih.mp hbs)
      · rintro (_ | ⟨hb, hbs⟩)
        exact ⟨_, hb, except_bind_eq_ok.mpr ⟨_, ih.mpr hbs, rfl⟩⟩

/-- Traversals whose steps agree, pair by pair. -/
theorem mapM_congr {m : Type → Type} [Monad m] [LawfulMonad m] {γ : Type} {f : α → m γ}
    {g : β → m γ} {as : List α} {bs : List β} (h : List.Forall₂ (fun a b => f a = g b) as bs) :
    as.mapM f = bs.mapM g := by
  induction h with
  | nil => rfl
  | cons hfirst _ ih => rw [List.mapM_cons, List.mapM_cons, hfirst, ih]

end Library
