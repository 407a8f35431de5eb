import Mathlib.Data.List.AList
import Mathlib.Algebra.GroupWithZero.Nat

/-!
Counting over the items of a list and the entries of a map, as one of them is
replaced. What is counted at most once is at one place.
-/

namespace Library

section Lists

variable {α : Type} {p : α → Bool} {l : List α} {i j : Nat} {a b : α}

theorem countP_set_add (h : l[i]? = some a) (b : α) :
    (l.set i b).countP p + (if p a then 1 else 0) = l.countP p + (if p b then 1 else 0) := by
  induction l generalizing i with
  | nil => cases h
  | cons c l ih => cases i with
    | zero =>
        cases h
        rw [List.set_cons_zero, List.countP_cons, List.countP_cons]
        omega
    | succ i =>
        have hrest := ih h
        rw [List.set_cons_succ, List.countP_cons, List.countP_cons]
        omega

theorem countP_concat (l : List α) (b : α) :
    (l ++ [b]).countP p = l.countP p + (if p b then 1 else 0) := by
  rw [List.countP_append, List.countP_singleton]

theorem eq_of_countP_le_one (h : l.countP p ≤ 1) (hi : l[i]? = some a) (hj : l[j]? = some b)
    (ha : p a) (hb : p b) : i = j := by
  induction l generalizing i j with
  | nil => cases hi
  | cons c l ih =>
      rw [List.countP_cons] at h
      have hpos {k : Nat} {d : α} (hk : l[k]? = some d) (hd : p d) : 0 < l.countP p :=
        List.countP_pos_iff.mpr ⟨d, List.mem_of_getElem? hk, hd⟩
      cases i with
      | zero => cases j with
        | zero => rfl
        | succ j =>
            cases hi
            rw [if_pos ha] at h
            exact absurd (hpos hj hb) (by omega)
      | succ i => cases j with
        | zero =>
            cases hj
            rw [if_pos hb] at h
            exact absurd (hpos hi ha) (by omega)
        | succ j => exact congrArg Nat.succ (ih (by omega) hi hj)

end Lists

section Maps

variable {κ β : Type} [DecidableEq κ]

def totalOf (f : β → Nat) (m : AList fun _ : κ => β) : Nat := (m.entries.map fun e => f e.2).sum

/-- An insertion adds what it puts and takes out what it replaces. -/
theorem totalOf_insert (f : β → Nat) (m : AList fun _ : κ => β) (key : κ) (value : β) :
    totalOf f (m.insert key value) + ((m.lookup key).map f).getD 0 = totalOf f m + f value := by
  have hnew : totalOf f (m.insert key value) =
      f value + ((List.kerase key m.entries).map fun e => f e.2).sum := by
    rw [totalOf, AList.entries_insert, List.map_cons, List.sum_cons]
  cases hlookup : m.lookup key with
  | none =>
      have hout : key ∉ m.entries.keys := AList.lookup_eq_none.mp hlookup
      rw [hnew, List.kerase_of_notMem_keys hout, Option.map_none, Option.getD_none, totalOf]
      omega
  | some old =>
      have hmem : ⟨key, old⟩ ∈ m.entries := AList.mem_lookup_iff.mp hlookup
      have hkeys : key ∈ m.entries.keys := List.mem_keys_of_mem hmem
      obtain ⟨found, before, after, _, hentries, hrest⟩ := List.exists_of_kerase hkeys
      have hfound : m.lookup key = some found := by
        refine AList.mem_lookup_iff.mpr ?_
        rw [hentries]
        exact List.mem_append_right _ List.mem_cons_self
      obtain rfl : old = found := Option.some.inj (hlookup.symm.trans hfound)
      rw [hnew, hrest, totalOf, hentries]
      simp only [List.map_append, List.map_cons, List.sum_append, List.sum_cons, Option.map_some,
        Option.getD_some]
      omega

end Maps

end Library
