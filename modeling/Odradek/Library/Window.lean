import Mathlib.Order.WithBot
import Mathlib.Data.List.Basic

/-!
Windows of a log whose entries carry strictly ascending keys. A window is the
part of the log after one bound and up to another; the bounds are taken from
the keys with a least element added, so that "from the beginning" is a bound.
The keys need not be dense and the bounds need not be keys of the log.
-/

namespace Library

variable {α κ : Type} [LinearOrder κ] (key : α → κ)

def Ascending (log : List α) : Prop :=
  log.Pairwise fun x y => key x < key y

/-- The entries strictly after `low` and at or before `high`. -/
def window (low high : WithBot κ) (log : List α) : List α :=
  log.filter fun x => low < (key x : WithBot κ) ∧ (key x : WithBot κ) ≤ high

def after (low : WithBot κ) (log : List α) : List α :=
  log.filter fun x => low < (key x : WithBot κ)

variable {key}

theorem mem_window {low high : WithBot κ} {log : List α} {x : α} :
    x ∈ window key low high log ↔
      x ∈ log ∧ low < (key x : WithBot κ) ∧ (key x : WithBot κ) ≤ high := by
  simp [window]

theorem mem_after {low : WithBot κ} {log : List α} {x : α} :
    x ∈ after key low log ↔ x ∈ log ∧ low < (key x : WithBot κ) := by
  simp [after]

theorem window_append (low high : WithBot κ) (xs ys : List α) :
    window key low high (xs ++ ys) = window key low high xs ++ window key low high ys :=
  List.filter_append xs ys

theorem after_append (low : WithBot κ) (xs ys : List α) :
    after key low (xs ++ ys) = after key low xs ++ after key low ys :=
  List.filter_append xs ys

theorem window_eq_nil_of_le {low high : WithBot κ} (h : high ≤ low) (log : List α) :
    window key low high log = [] := by
  refine List.filter_eq_nil_iff.mpr ?_
  intro x _ hx
  have hx := of_decide_eq_true hx
  exact absurd (lt_of_lt_of_le hx.1 hx.2) (not_lt.mpr h)

theorem window_eq_nil_of_gt {low high : WithBot κ} {log : List α}
    (h : ∀ x ∈ log, high < (key x : WithBot κ)) : window key low high log = [] := by
  refine List.filter_eq_nil_iff.mpr ?_
  intro x hx hin
  have hin := of_decide_eq_true hin
  exact absurd hin.2 (not_le.mpr (h x hx))

/-- Entries past the upper bound leave a window as it was. -/
theorem window_append_of_gt {low high : WithBot κ} {log new : List α}
    (h : ∀ x ∈ new, high < (key x : WithBot κ)) :
    window key low high (log ++ new) = window key low high log := by
  rw [window_append, window_eq_nil_of_gt h, List.append_nil]

theorem after_eq_self {low : WithBot κ} {log : List α}
    (h : ∀ x ∈ log, low < (key x : WithBot κ)) : after key low log = log :=
  List.filter_eq_self.mpr fun x hx => decide_eq_true (h x hx)

theorem after_eq_nil {low : WithBot κ} {log : List α}
    (h : ∀ x ∈ log, (key x : WithBot κ) ≤ low) : after key low log = [] :=
  List.filter_eq_nil_iff.mpr fun x hx hin => absurd (of_decide_eq_true hin) (not_lt.mpr (h x hx))

/-- Up to a bound that no entry is past, a window is all there is after its start. -/
theorem window_eq_after {low high : WithBot κ} {log : List α}
    (h : ∀ x ∈ log, (key x : WithBot κ) ≤ high) : window key low high log = after key low log :=
  List.filter_congr fun x hx => by simp only [h x hx, and_true]

/-- A window of a log whose first entries are before it and whose last ones are
past it. -/
theorem window_middle {low high : WithBot κ} {front middle rest : List α}
    (hfront : ∀ x ∈ front, (key x : WithBot κ) ≤ low)
    (hmiddle : ∀ x ∈ middle, (key x : WithBot κ) ≤ high)
    (hrest : ∀ x ∈ rest, high < (key x : WithBot κ)) :
    window key low high (front ++ (middle ++ rest)) = after key low middle := by
  have hnone : window key low high front = [] := by
    refine List.filter_eq_nil_iff.mpr fun x hx hin => ?_
    exact absurd (of_decide_eq_true hin).1 (not_lt.mpr (hfront x hx))
  rw [window_append, window_append, hnone, window_eq_nil_of_gt hrest, window_eq_after hmiddle,
    List.nil_append, List.append_nil]

theorem Ascending.window {log : List α} (h : Ascending key log) (low high : WithBot κ) :
    Ascending key (window key low high log) :=
  h.filter _

theorem Ascending.append_singleton {log : List α} {x : α} (h : Ascending key log)
    (hx : ∀ y ∈ log, key y < key x) : Ascending key (log ++ [x]) := by
  refine List.pairwise_append.mpr ⟨h, List.pairwise_singleton _ _, ?_⟩
  intro y hy z hz
  rw [List.mem_singleton.mp hz]
  exact hx y hy

theorem Ascending.cons_iff {log : List α} {x : α} :
    Ascending key (x :: log) ↔ (∀ y ∈ log, key x < key y) ∧ Ascending key log :=
  List.pairwise_cons

/-- In an ascending log a bound below the head is below every entry. -/
theorem Ascending.lt_of_head_lt {low : WithBot κ} {log : List α} {x : α}
    (h : Ascending key (x :: log)) (hl : low < (key x : WithBot κ)) :
    ∀ y ∈ x :: log, low < (key y : WithBot κ) := by
  intro y hy
  rcases List.mem_cons.mp hy with rfl | hy
  · exact hl
  · exact lt_trans hl (WithBot.coe_lt_coe.mpr ((Ascending.cons_iff.mp h).1 y hy))

private theorem window_eq_of_low {low mid high : WithBot κ} {log : List α}
    (hl : low ≤ mid) (h : ∀ x ∈ log, mid < (key x : WithBot κ)) :
    window key low high log = window key mid high log := by
  refine List.filter_congr ?_
  intro x hx
  simp only [lt_of_le_of_lt hl (h x hx), h x hx, true_and]

/-- Two adjacent windows make up the window of the outer bounds. -/
theorem window_split {low mid high : WithBot κ} {log : List α} (h : Ascending key log)
    (hl : low ≤ mid) (hh : mid ≤ high) :
    window key low high log = window key low mid log ++ window key mid high log := by
  induction log with
  | nil => rfl
  | cons x log ih =>
      obtain ⟨hx, hs⟩ := Ascending.cons_iff.mp h
      by_cases hm : (key x : WithBot κ) ≤ mid
      · have hn : ¬ mid < (key x : WithBot κ) := not_lt.mpr hm
        have ih := ih hs
        simp only [window] at ih ⊢
        simp only [List.filter_cons, hm, le_trans hm hh, hn, and_true,
          decide_false, Bool.false_eq_true, ite_false, ih]
        split <;> simp
      · have hgt := h.lt_of_head_lt (not_le.mp hm)
        rw [window_eq_nil_of_gt hgt, List.nil_append]
        exact window_eq_of_low hl hgt

/-- What is after a bound begins with every window opened at it. -/
theorem window_prefix_after {low high : WithBot κ} {log : List α} (h : Ascending key log) :
    window key low high log <+: after key low log := by
  induction log with
  | nil => exact List.nil_prefix
  | cons x log ih =>
      obtain ⟨hx, hs⟩ := Ascending.cons_iff.mp h
      by_cases hh : (key x : WithBot κ) ≤ high
      · by_cases hl : low < (key x : WithBot κ)
        · simpa [window, after, hl, hh] using ih hs
        · simpa [window, after, hl] using ih hs
      · have hgt := h.lt_of_head_lt (not_le.mp hh)
        rw [window_eq_nil_of_gt hgt]
        exact List.nil_prefix

/-- Skipping what is at or before a bound inside a window narrows the window. -/
theorem dropWhile_window {low mid high : WithBot κ} {log : List α}
    (h : Ascending key log) (hl : low ≤ mid) :
    (window key low high log).dropWhile (fun x => (key x : WithBot κ) ≤ mid) =
      window key mid high log := by
  induction log with
  | nil => rfl
  | cons x log ih =>
      obtain ⟨hx, hs⟩ := Ascending.cons_iff.mp h
      by_cases hm : (key x : WithBot κ) ≤ mid
      · have hn : ¬ mid < (key x : WithBot κ) := not_lt.mpr hm
        have ih := ih hs
        simp only [window] at ih ⊢
        simp only [List.filter_cons, hn, false_and, decide_false, Bool.false_eq_true, ite_false]
        split
        · simpa [hm] using ih
        · exact ih
      · have hgt := h.lt_of_head_lt (not_le.mp hm)
        rw [← window_eq_of_low hl hgt]
        cases hw : window key low high (x :: log) with
        | nil => rfl
        | cons y ys =>
            have hy : y ∈ window key low high (x :: log) := by rw [hw]; exact List.mem_cons_self
            have hy := hgt y (mem_window.mp hy).1
            simp [not_le.mpr hy]

/-- The first entry of a window splits it at that entry's key. -/
theorem window_eq_cons {low high : WithBot κ} {log rest : List α} {x : α}
    (h : Ascending key log) (hw : window key low high log = x :: rest) :
    low < (key x : WithBot κ) ∧ (key x : WithBot κ) ≤ high ∧
      window key low (key x) log = [x] ∧ window key (key x) high log = rest := by
  have hx := (mem_window.mp (hw ▸ List.mem_cons_self : x ∈ window key low high log)).2
  have hs : Ascending key (x :: rest) := hw ▸ h.window low high
  have hrest : window key (key x) high log = rest := by
    rw [← dropWhile_window h hx.1.le, hw, List.dropWhile_cons_of_pos (by simp)]
    cases rest with
    | nil => rfl
    | cons y ys =>
        have hy := (Ascending.cons_iff.mp hs).1 y List.mem_cons_self
        simp [hy]
  refine ⟨hx.1, hx.2, ?_, hrest⟩
  have split := window_split h hx.1.le hx.2
  rw [hw, hrest] at split
  exact (List.append_cancel_right (show [x] ++ rest = _ from split)).symm

/-- What is wanted after `low`, cut behind any of its entries, goes on with what
is wanted after that entry. -/
theorem after_filter_split {low : WithBot κ} {log seen : List α} {x : α} {keep : α → Bool}
    (h : Ascending key log) (hseen : seen ++ [x] <+: (after key low log).filter keep) :
    seen ++ [x] ++ (after key (key x) log).filter keep = (after key low log).filter keep := by
  obtain ⟨rest, hrest⟩ := hseen
  have hx : low < (key x : WithBot κ) := by
    have hmem : x ∈ (after key low log).filter keep := hrest ▸ by simp
    exact (mem_after.mp (List.mem_filter.mp hmem).1).2
  have hordered : ((seen ++ [x]) ++ rest).Pairwise fun a b => key a < key b :=
    hrest ▸ (List.Pairwise.filter _ (List.Pairwise.filter _ h))
  have hcut : (after key (key x) log).filter keep =
      ((after key low log).filter keep).filter fun y => key x < key y := by
    simp only [after, List.filter_filter]
    refine List.filter_congr fun y _ => ?_
    by_cases hy : key x < key y
    · have hlow : low < (key y : WithBot κ) := lt_trans hx (WithBot.coe_lt_coe.mpr hy)
      simp [hy, hlow]
    · simp [hy]
  obtain ⟨hfront, _, hcross⟩ := List.pairwise_append.mp hordered
  obtain ⟨_, _, hlast⟩ := List.pairwise_append.mp hfront
  have hnone : (seen ++ [x]).filter (fun y => decide (key x < key y)) = [] := by
    refine List.filter_eq_nil_iff.mpr fun y hy => ?_
    rcases List.mem_append.mp hy with hy | hy
    · simpa using (hlast y hy x List.mem_cons_self).le
    · simp [List.mem_singleton.mp hy]
  have hall : rest.filter (fun y => decide (key x < key y)) = rest :=
    List.filter_eq_self.mpr fun y hy => by
      simpa using hcross x (by simp) y hy
  rw [hcut, ← hrest, List.filter_append, hnone, hall, List.nil_append]

end Library
