/-!
Turns taken by number. From `rotor` on the higher numbers come first, in order, and
then the lower ones; whose turn it is moves the rotor past it. Who is owed a turn
all the time is not overtaken twice by anybody, whoever else comes and goes.
-/

namespace Library

namespace Rotation

/-- `a` comes before `b`, from `rotor` on. -/
def Before (rotor a b : Nat) : Prop :=
  (a < b ∧ (rotor ≤ a ∨ b < rotor)) ∨ (rotor ≤ a ∧ b < rotor)

variable {rotor a b c : Nat}

theorem Before.irrefl (a : Nat) : ¬ Before rotor a a := by
  unfold Before
  omega

theorem Before.trans (hab : Before rotor a b) (hbc : Before rotor b c) : Before rotor a c := by
  unfold Before at *
  omega

theorem Before.connected (h : a ≠ b) : Before rotor a b ∨ Before rotor b a := by
  unfold Before
  omega

/-- Who has just had its turn comes last. -/
theorem before_last (h : a ≠ b) : Before (b + 1) a b := by
  unfold Before
  omega

/-- A turn of somebody before both leaves them as they are. -/
theorem Before.turned (hca : Before rotor c a) (hab : Before rotor a b) : Before (c + 1) a b := by
  unfold Before at *
  omega

/-- The turn of `a`: nobody who is owed one comes before it. -/
def Takes (rotor : Nat) (owed : Nat → Prop) (a : Nat) : Prop := ∀ b, owed b → ¬ Before rotor b a

/-- Turns taken one after the other, `owed` as it happens to be at each. -/
structure Turns (rotor : Nat → Nat) (owed : Nat → Nat → Prop) (taken : Nat → Option Nat) :
    Prop where
  takes : ∀ k a, taken k = some a → Takes (rotor k) (owed k) a ∧ rotor (k + 1) = a + 1
  idle : ∀ k, taken k = none → (∀ a, ¬ owed k a) ∧ rotor (k + 1) = rotor k

variable {rotor : Nat → Nat} {owed : Nat → Nat → Prop} {taken : Nat → Option Nat} {i j x y : Nat}

/-- Before `x` has its turn, nobody who comes after it gets in front. -/
theorem Turns.stays (h : Turns rotor owed taken) (hbefore : Before (rotor i) x y) (hij : i ≤ j)
    (howed : ∀ k, i ≤ k → k < j → owed k x) (hnot : ∀ k, i ≤ k → k < j → taken k ≠ some x) :
    Before (rotor j) x y := by
  induction hij with
  | refl => exact hbefore
  | @step j hij ih =>
      have hstays := ih (fun k hk hkj => howed k hk (Nat.lt_succ_of_lt hkj))
        fun k hk hkj => hnot k hk (Nat.lt_succ_of_lt hkj)
      cases htaken : taken j with
      | none => exact absurd (howed j hij (Nat.lt_succ_self j)) ((h.idle j htaken).1 x)
      | some z =>
          obtain ⟨htakes, hrotor⟩ := h.takes j z htaken
          have hne : z ≠ x := fun heq => hnot j hij (Nat.lt_succ_self j) (heq ▸ htaken)
          have hfirst := htakes x (howed j hij (Nat.lt_succ_self j))
          rw [hrotor]
          exact ((Before.connected hne).resolve_right hfirst).turned hstays

/-- Whoever has two turns while `x` is owed one has seen `x` take one between them. -/
theorem Turns.fair (h : Turns rotor owed taken) (hne : x ≠ y) (hij : i < j)
    (hi : taken i = some y) (hj : taken j = some y) (howed : ∀ k, i < k → k ≤ j → owed k x) :
    ∃ k, i < k ∧ k < j ∧ taken k = some x := by
  apply Classical.byContradiction
  intro hnone
  have hlast : Before (rotor (i + 1)) x y := by
    rw [(h.takes i y hi).2]
    exact before_last hne
  have hstays := h.stays hlast hij (fun k hk hkj => howed k hk (Nat.le_of_lt hkj))
    fun k hk hkj heq => hnone ⟨k, hk, hkj, heq⟩
  exact (h.takes j y hj).1 x (howed j hij (Nat.le_refl j)) hstays

end Rotation

end Library
