import Mathlib.Algebra.Order.Group.Nat

/-!
A count split into `n` contiguous shares: each the quotient, and one more for as
many of the first as the remainder says. The shares tile the count, and no two
differ by more than one.
-/

namespace Library

namespace FairSplit

def share (count n j : Nat) : Nat := count / n + if j < count % n then 1 else 0

def start (count n j : Nat) : Nat := j * (count / n) + min j (count % n)

variable {count n : Nat}

theorem share_le (count n j : Nat) : share count n j ≤ count := by
  have hdiv := Nat.div_add_mod count n
  unfold share
  split
  · cases n with
    | zero =>
        rw [Nat.div_zero]
        rw [Nat.mod_zero] at *
        omega
    | succ n =>
        have hmul := Nat.le_mul_of_pos_left (count / (n + 1)) (Nat.add_one_pos n)
        omega
  · exact Nat.div_le_self count n

theorem start_zero : start count n 0 = 0 := by
  simp only [start, Nat.zero_mul, Nat.zero_min, Nat.add_zero]

theorem start_succ (j : Nat) : start count n (j + 1) = start count n j + share count n j := by
  unfold start share
  rw [Nat.add_mul, Nat.one_mul]
  split <;> omega

theorem start_all (h : 0 < n) : start count n n = count := by
  have hmod := Nat.mod_lt count h
  have hdiv := Nat.div_add_mod count n
  unfold start
  omega

theorem start_mono {j k : Nat} (h : j ≤ k) : start count n j ≤ start count n k := by
  have hmul := Nat.mul_le_mul_right (count / n) h
  unfold start
  omega

theorem start_le {j : Nat} (h : j ≤ n) (hn : 0 < n) : start count n j ≤ count := by
  have hmono := @start_mono count n _ _ h
  rwa [start_all hn] at hmono

/-- Larger shares come first, by one at most. -/
theorem share_fair {j k : Nat} (h : j ≤ k) :
    share count n k ≤ share count n j ∧ share count n j ≤ share count n k + 1 := by
  unfold share
  split <;> split <;> omega

/-- Each place lies in exactly one share. -/
theorem tile {p : Nat} (hp : p < count) (hn : 0 < n) :
    ∃ j, (j < n ∧ start count n j ≤ p ∧ p < start count n (j + 1)) ∧
      ∀ k, start count n k ≤ p ∧ p < start count n (k + 1) → k = j := by
  have hreach : ∀ m, p < start count n m → ∃ j < m, start count n j ≤ p ∧
      p < start count n (j + 1) := by
    intro m
    induction m with
    | zero =>
        intro h
        rw [start_zero] at h
        omega
    | succ m ih =>
        intro h
        by_cases hm : p < start count n m
        · obtain ⟨j, hj, hplace⟩ := ih hm
          exact ⟨j, by omega, hplace⟩
        · exact ⟨m, by omega, by omega, h⟩
  obtain ⟨j, hj, hle, hlt⟩ := hreach n (by rwa [start_all hn])
  refine ⟨j, ⟨hj, hle, hlt⟩, ?_⟩
  rintro k ⟨hkle, hklt⟩
  obtain hkj | rfl | hkj := Nat.lt_trichotomy k j
  · have hmono := @start_mono count n _ _ (Nat.succ_le_of_lt hkj)
    simp only [Nat.succ_eq_add_one] at hmono
    omega
  · rfl
  · have hmono := @start_mono count n _ _ (Nat.succ_le_of_lt hkj)
    simp only [Nat.succ_eq_add_one] at hmono
    omega

end FairSplit
end Library
