import Odradek.Library.Program

/-!
What a run of a program leaves behind: its operations in order, each with the
answer it got, whatever the environment answered. `Meets` says something of every
run; its rules walk through a program from the front. A program of one kind of
operations is one of two kinds that performs the first kind only.
-/

namespace Library

/-- An operation and its answer. -/
abbrev Exchange (Op : Type) (Res : Op → Type) := (op : Op) × Res op

namespace Program

variable {Op : Type} {Res : Op → Type} {α β ε ε' σ κ : Type}

/-- The program may return `a`, with these exchanges on the way. -/
inductive Yields : Program Op Res α → List (Exchange Op Res) → α → Prop
  | done {a : α} : Yields (.done a) [] a
  | call {op : Op} {next : Res op → Program Op Res α} {r : Res op}
      {t : List (Exchange Op Res)} {a : α} :
      Yields (next r) t a → Yields (.call op next) (⟨op, r⟩ :: t) a

section Yielding

variable {p : Program Op Res α} {t : List (Exchange Op Res)} {a : α} {b : β}

theorem yields_done {c : α} (h : (done a : Program Op Res α).Yields t c) : t = [] ∧ c = a := by
  cases h
  exact ⟨rfl, rfl⟩

theorem yields_perform {op : Op} {r : Res op} (h : (perform op).Yields t r) : t = [⟨op, r⟩] := by
  cases h with
  | call hdone =>
      obtain ⟨rfl, rfl⟩ := yields_done hdone
      rfl

theorem yields_bind {f : α → Program Op Res β} (h : (p.bind f).Yields t b) :
    ∃ u v a, t = u ++ v ∧ p.Yields u a ∧ (f a).Yields v b := by
  induction p generalizing t with
  | done a => exact ⟨[], t, a, rfl, .done, h⟩
  | call op next ih =>
      cases h with
      | call hrest =>
          obtain ⟨u, v, a, rfl, hp, hf⟩ := ih _ hrest
          exact ⟨_ :: u, v, a, rfl, .call hp, hf⟩

/-- The run in which the environment answers by what has been asked before. -/
def answered (answer : List Op → (op : Op) → Res op) :
    List Op → Program Op Res α → List (Exchange Op Res) × α
  | _, .done a => ([], a)
  | asked, .call op next =>
    let rest := (next (answer asked op)).answered answer (asked ++ [op])
    (⟨op, answer asked op⟩ :: rest.1, rest.2)

theorem yields_answered (answer : List Op → (op : Op) → Res op) (asked : List Op)
    (p : Program Op Res α) :
    p.Yields (p.answered answer asked).1 (p.answered answer asked).2 := by
  induction p generalizing asked with
  | done a => exact .done
  | call op next ih => exact .call (ih _ _)

theorem answered_mem {answer : List Op → (op : Op) → Res op} {asked : List Op}
    {p : Program Op Res α} {e : Exchange Op Res} (h : e ∈ (p.answered answer asked).1) :
    ∃ before, e = ⟨e.1, answer before e.1⟩ := by
  induction p generalizing asked with
  | done a => cases h
  | call op next ih =>
      obtain rfl | h := List.mem_cons.mp h
      · exact ⟨asked, rfl⟩
      · exact ih _ h

end Yielding

def given (r : Except ε α) : ExceptT ε (Program Op Res) α := ExceptT.mk (.done r)

/-- `map_err`. -/
def mapError (f : ε → ε') (x : ExceptT ε (Program Op Res) α) : ExceptT ε' (Program Op Res) α :=
  ExceptT.mk (bind x.run fun r => .done (r.mapError f))

/-- Whatever the environment answers, trace and result are as `Q` says. -/
def Meets (p : Program Op Res α) (Q : List (Exchange Op Res) → α → Prop) : Prop :=
  ∀ t a, p.Yields t a → Q t a

section Meeting

variable {p : Program Op Res α} {P Q : List (Exchange Op Res) → α → Prop}

theorem Meets.imp (h : p.Meets P) (weaken : ∀ t a, P t a → Q t a) : p.Meets Q :=
  fun t a hyields => weaken t a (h t a hyields)

theorem meets_done {a : α} (h : Q [] a) : (done a : Program Op Res α).Meets Q := by
  intro t b hyields
  obtain ⟨rfl, rfl⟩ := yields_done hyields
  exact h

theorem meets_perform {op : Op} {Q : List (Exchange Op Res) → Res op → Prop}
    (h : ∀ r, Q [⟨op, r⟩] r) : (perform op).Meets Q := by
  intro t r hyields
  rw [yields_perform hyields]
  exact h r

theorem meets_bind {f : α → Program Op Res β} {Q : List (Exchange Op Res) → β → Prop}
    (hp : p.Meets P) (hf : ∀ t a, P t a → (f a).Meets fun u b => Q (t ++ u) b) :
    (p.bind f).Meets Q := by
  intro t b hyields
  obtain ⟨u, v, a, rfl, hu, hv⟩ := yields_bind hyields
  exact hf u a (hp u a hu) v b hv

end Meeting

section After

/-- Whatever the environment answers from here on, with `t` behind it: `x` returns as
`Q` says or fails as `E` says. -/
def After (t : List (Exchange Op Res)) (x : ExceptT ε (Program Op Res) α)
    (Q : List (Exchange Op Res) → α → Prop) (E : List (Exchange Op Res) → ε → Prop) : Prop :=
  x.run.Meets fun u r =>
    match r with
    | .ok a => Q (t ++ u) a
    | .error e => E (t ++ u) e

variable {t : List (Exchange Op Res)} {x : ExceptT ε (Program Op Res) α}
  {Q Q' : List (Exchange Op Res) → α → Prop} {E F : List (Exchange Op Res) → ε → Prop}

theorem After.imp (h : After t x Q E) (ok : ∀ u a, Q u a → Q' u a) (error : ∀ u e, E u e → F u e) :
    After t x Q' F := by
  refine Meets.imp h fun u r hr => ?_
  cases r with
  | ok a => exact ok _ a hr
  | error e => exact error _ e hr

/-- What `x` does for itself, it does behind any trace. -/
theorem After.frame (h : After [] x Q E) :
    After t x (fun t' a => ∃ u, t' = t ++ u ∧ Q u a) fun t' e => ∃ u, t' = t ++ u ∧ E u e := by
  refine Meets.imp h fun u r hr => ?_
  cases r with
  | ok a => exact ⟨u, rfl, hr⟩
  | error e => exact ⟨u, rfl, hr⟩

theorem after_pure {a : α} (h : Q t a) : After t (pure a) Q E := by
  refine meets_done ?_
  rw [List.append_nil]
  exact h

theorem after_throw {e : ε} (h : E t e) : After t (throw e) Q E := by
  refine meets_done ?_
  rw [List.append_nil]
  exact h

theorem after_given {r : Except ε α} (ok : ∀ a, r = .ok a → Q t a)
    (error : ∀ e, r = .error e → E t e) : After t (given r) Q E := by
  cases r with
  | ok a => exact after_pure (ok a rfl)
  | error e => exact after_throw (error e rfl)

/-- `?`: an error is the result of the whole. -/
theorem after_bind {f : α → ExceptT ε (Program Op Res) β} {R : List (Exchange Op Res) → β → Prop}
    (hx : After t x Q E) (hf : ∀ u a, Q u a → After u (f a) R E) : After t (x >>= f) R E := by
  refine meets_bind (p := x.run) (f := ExceptT.bindCont f) hx fun u r hr => ?_
  cases r with
  | ok a =>
      refine Meets.imp (hf (t ++ u) a hr) fun v r hr => ?_
      rw [List.append_assoc] at hr
      exact hr
  | error e =>
      refine meets_done ?_
      rw [List.append_nil]
      exact hr

theorem after_lift {p : Program Op Res α} (hp : p.Meets fun u a => Q (t ++ u) a) :
    After t (liftM p : ExceptT ε (Program Op Res) α) Q E := by
  refine meets_bind hp fun u a hQ => meets_done ?_
  rw [List.append_nil]
  exact hQ

theorem after_mapError {f : ε → ε'} {F : List (Exchange Op Res) → ε' → Prop} (hx : After t x Q E)
    (error : ∀ u e, E u e → F u (f e)) : After t (mapError f x) Q F := by
  refine meets_bind hx fun u r hr => meets_done ?_
  rw [List.append_nil]
  cases r with
  | ok a => exact hr
  | error e => exact error _ e hr

/-- An error is a result like any other. -/
theorem after_caught {F : List (Exchange Op Res) → ε' → Prop} (hx : After t x Q E) :
    After t (caught x) (fun u r => match r with
      | .ok a => Q u a
      | .error e => E u e) F := by
  refine meets_bind hx fun u r hr => meets_done ?_
  rw [List.append_nil]
  exact hr

end After

section Loops

/-- `for attempt in 0..n`, with a pause before every attempt but the first: a state to
go on with, or a result that ends the loop. -/
def attempts (pause : Program Op Res Unit)
    (body : Nat → σ → ExceptT ε (Program Op Res) (σ ⊕ α)) :
    Nat → Nat → σ → ExceptT ε (Program Op Res) (σ ⊕ α)
  | 0, _, s => pure (.inl s)
  | n + 1, attempt, s => do
    liftM (if 0 < attempt then pause else .done ())
    let out ← body attempt s
    match out with
    | .inl s => attempts pause body n (attempt + 1) s
    | .inr a => pure (.inr a)

/-- An invariant of the attempts so far, and what holds when one of them ends the loop. -/
theorem after_attempts {pause : Program Op Res Unit}
    {body : Nat → σ → ExceptT ε (Program Op Res) (σ ⊕ α)}
    {I : Nat → List (Exchange Op Res) → σ → Prop} {D : List (Exchange Op Res) → α → Prop}
    {E : List (Exchange Op Res) → ε → Prop}
    (rest : ∀ attempt t s, I attempt t s → pause.Meets fun u _ => I attempt (t ++ u) s)
    (step : ∀ attempt t s, I attempt t s → After t (body attempt s) (fun t out => match out with
      | .inl s => I (attempt + 1) t s
      | .inr a => D t a) E)
    (n attempt : Nat) (t : List (Exchange Op Res)) (s : σ) (first : I attempt t s) :
    After t (attempts pause body n attempt s) (fun t out => match out with
      | .inl s => I (attempt + n) t s
      | .inr a => D t a) E := by
  induction n generalizing attempt t s with
  | zero => exact after_pure first
  | succ n ih =>
      have hpause : (if 0 < attempt then pause else .done ()).Meets
          fun u _ => I attempt (t ++ u) s := by
        split
        · exact rest attempt t s first
        · refine meets_done ?_
          rw [List.append_nil]
          exact first
      refine after_bind (after_lift (Q := fun t _ => I attempt t s) hpause) fun u _ hu => ?_
      refine after_bind (step attempt u s hu) fun v out hout => ?_
      cases out with
      | inr a => exact after_pure hout
      | inl s =>
          have hlast : attempt + 1 + n = attempt + (n + 1) := by omega
          rw [← hlast]
          exact ih (attempt + 1) v s hout

/-- `for x in xs`, with a state that the body hands on. -/
def each (body : κ → σ → ExceptT ε (Program Op Res) σ) :
    List κ → σ → ExceptT ε (Program Op Res) σ
  | [], s => pure s
  | x :: xs, s => do
    let s ← body x s
    each body xs s

/-- An invariant of the elements so far. -/
theorem after_each {body : κ → σ → ExceptT ε (Program Op Res) σ}
    {I : List κ → List (Exchange Op Res) → σ → Prop} {E : List (Exchange Op Res) → ε → Prop}
    {xs : List κ} {t : List (Exchange Op Res)} {s : σ}
    (step : ∀ past x later, past ++ x :: later = xs → ∀ t s, I past t s →
      After t (body x s) (I (past ++ [x])) E)
    (first : I [] t s) : After t (each body xs s) (I xs) E := by
  suffices h : ∀ later past, past ++ later = xs → ∀ t s, I past t s →
      After t (each body later s) (I xs) E from h xs [] rfl t s first
  intro later
  induction later with
  | nil =>
      intro past hxs t s hI
      rw [List.append_nil] at hxs
      rw [hxs] at hI
      exact after_pure hI
  | cons x later ih =>
      intro past hxs t s hI
      refine after_bind (step past x later hxs t s hI) fun u s hI => ih (past ++ [x]) ?_ u s hI
      rw [List.append_assoc]
      exact hxs

end Loops

section TwoKinds

variable {Op' : Type} {Res' : Op' → Type}

/-- The answers of two kinds of operations. -/
abbrev Either (Res : Op → Type) (Res' : Op' → Type) : Op ⊕ Op' → Type
  | .inl op => Res op
  | .inr op => Res' op

def left (Res' : Op' → Type) : Program Op Res α → Program (Op ⊕ Op') (Either Res Res') α
  | .done a => .done a
  | .call op next => .call (.inl op) fun r => (next r).left Res'

theorem yields_left {p : Program Op Res α} {t : List (Exchange (Op ⊕ Op') (Either Res Res'))}
    {a : α} (h : (p.left Res').Yields t a) : ∀ e ∈ t, e.1.isLeft := by
  induction p generalizing t with
  | done b =>
      obtain ⟨rfl, rfl⟩ := yields_done h
      exact List.forall_mem_nil _
  | call op next ih =>
      cases h with
      | call hrest => exact List.forall_mem_cons.mpr ⟨rfl, ih _ hrest⟩

end TwoKinds

end Program

end Library
