/-!
Runs of a labelled transition system and the induction over them. A side
condition on steps is part of the relation, so "every run whose steps all meet
the condition" is reachability under the restricted relation.
-/

namespace Library

variable {σ α : Type}

/-- The states reached from an initial state by finitely many steps. -/
inductive Reachable (init : σ → Prop) (step : σ → α → σ → Prop) : σ → Prop
  | start {s : σ} : init s → Reachable init step s
  | step {s t : σ} (a : α) : Reachable init step s → step s a t → Reachable init step t

theorem Reachable.invariant {init : σ → Prop} {step : σ → α → σ → Prop} {P : σ → Prop}
    (first : ∀ s, init s → P s) (next : ∀ s a t, P s → step s a t → P t)
    {s : σ} (h : Reachable init step s) : P s := by
  induction h with
  | start hs => exact first _ hs
  | step a _ hstep ih => exact next _ a _ ih hstep

/-- A run under a stronger relation is a run. -/
theorem Reachable.mono {init : σ → Prop} {step step' : σ → α → σ → Prop}
    (le : ∀ s a t, step s a t → step' s a t) {s : σ} (h : Reachable init step s) :
    Reachable init step' s := by
  induction h with
  | start hs => exact .start hs
  | step a _ hstep ih => exact .step a ih (le _ a _ hstep)

/-- An invariant whose preservation uses what another invariant says. -/
theorem Reachable.invariant_under {init : σ → Prop} {step : σ → α → σ → Prop} {I P : σ → Prop}
    (known : ∀ s, Reachable init step s → I s)
    (first : ∀ s, init s → P s) (next : ∀ s a t, I s → P s → step s a t → P t)
    {s : σ} (h : Reachable init step s) : P s := by
  induction h with
  | start hs => exact first _ hs
  | step a before hstep ih => exact next _ a _ (known _ before) ih hstep

/-- Take a list of actions, stopping at the first one that is not allowed. -/
def runActions (ok : σ → α → Prop) [∀ s a, Decidable (ok s a)] (next : σ → α → Option σ) :
    σ → List α → Option σ
  | s, [] => some s
  | s, a :: as => if ok s a then (next s a).bind (runActions ok next · as) else none

/-- A computed run ends in a state that is reached. -/
theorem Reachable.of_run {init : σ → Prop} {ok : σ → α → Prop} [∀ s a, Decidable (ok s a)]
    {next : σ → α → Option σ} {s t : σ} (as : List α)
    (hs : Reachable init (fun s a t => ok s a ∧ next s a = some t) s)
    (hrun : runActions ok next s as = some t) :
    Reachable init (fun s a t => ok s a ∧ next s a = some t) t := by
  induction as generalizing s with
  | nil =>
      obtain rfl : s = t := Option.some.inj hrun
      exact hs
  | cons a as ih =>
      unfold runActions at hrun
      split at hrun
      next hok =>
          obtain ⟨u, hnext, hrest⟩ := Option.bind_eq_some_iff.mp hrun
          exact ih (.step a hs ⟨hok, hnext⟩) hrest
      next => cases hrun

end Library
