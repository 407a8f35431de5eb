import Mathlib.Logic.Function.Basic

/-!
Lists merged into one, each item tagged with the source it came from. Sources
are read from the front, in any interleaving and as far as anybody cared to.
-/

namespace Library

variable {κ α : Type} [DecidableEq κ] {tags : List κ}

inductive Merged (tags : List κ) : (κ → List α) → List (κ × α) → Prop
  | nil (sources : κ → List α) : Merged tags sources []
  | next {sources : κ → List α} {k : κ} {x : α} {rest : List α} {merged : List (κ × α)} :
      k ∈ tags → sources k = x :: rest → Merged tags (Function.update sources k rest) merged →
      Merged tags sources ((k, x) :: merged)

namespace Merged

variable {sources : κ → List α} {merged : List (κ × α)}

/-- What carries one tag is the front of its source. -/
theorem prefix_source (h : Merged tags sources merged) (k : κ) :
    (merged.filter fun e => e.1 = k).map (·.2) <+: sources k := by
  induction h with
  | nil => exact List.nil_prefix
  | @next sources k' x rest merged _ hsource _ ih =>
      by_cases hkey : k' = k
      · subst hkey
        rw [Function.update_self] at ih
        rw [List.filter_cons_of_pos (by simp), List.map_cons, hsource]
        exact (List.cons_prefix_cons).mpr ⟨rfl, ih⟩
      · rw [Function.update_of_ne (Ne.symm hkey)] at ih
        rwa [List.filter_cons_of_neg (by simpa using hkey)]

theorem mem_source (h : Merged tags sources merged) {e : κ × α} (hmem : e ∈ merged) :
    e.1 ∈ tags ∧ e.2 ∈ sources e.1 := by
  induction h with
  | nil => cases hmem
  | @next sources k' x rest merged htag hsource _ ih =>
      rcases List.mem_cons.mp hmem with rfl | hmem
      · exact ⟨htag, hsource ▸ List.mem_cons_self⟩
      · obtain ⟨htags, hin⟩ := ih hmem
        refine ⟨htags, ?_⟩
        by_cases hkey : e.1 = k'
        · rw [hkey, Function.update_self] at hin
          rw [hkey, hsource]
          exact List.mem_cons_of_mem _ hin
        · rwa [Function.update_of_ne hkey] at hin

end Merged

end Library
