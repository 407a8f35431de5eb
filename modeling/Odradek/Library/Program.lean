/-!
Programs as trees of operations, and the machine that performs the operations
on a shared state. What the machine cannot decide itself comes with each
operation as a choice of its environment, which may also move on its own.
-/

namespace Library

inductive Program (Op : Type) (Res : Op → Type) (α : Type)
  | done (a : α)
  | call (op : Op) (next : Res op → Program Op Res α)

namespace Program

variable {Op : Type} {Res : Op → Type} {α β : Type}

def bind : Program Op Res α → (α → Program Op Res β) → Program Op Res β
  | .done a, f => f a
  | .call op next, f => .call op fun r => (next r).bind f

instance instMonad : Monad (Program Op Res) where
  pure := .done
  bind := bind

def perform (op : Op) : Program Op Res (Res op) := .call op .done

/-- A result to match on, where `?` is not used. -/
def caught {ε ε' : Type} (x : ExceptT ε (Program Op Res) α) :
    ExceptT ε' (Program Op Res) (Except ε α) :=
  ExceptT.mk (bind x.run fun r => .done (.ok r))

end Program

/-- `exec i op` is what task `i` gets from an operation, `drop i op` what is left
when its future is dropped while it waits in one, and `begin i call` what a new
call does before the first operation of its body. -/
structure Machine (σ Op : Type) (Res : Op → Type) (Choice Call Weather : Type) where
  exec : Nat → (op : Op) → Choice → σ → Option (Res op × σ)
  drop : Nat → Op → σ → Option σ
  idle : Weather → σ → Option σ
  begin : Nat → Call → σ → Option σ
  body : Call → Program Op Res Unit

namespace Machine

variable {σ Op Choice Call Weather : Type} {Res : Op → Type} {α : Type}

/-- The machine without the steps that do not meet a condition. -/
def under (M : Machine σ Op Res Choice Call Weather) (okExec : Nat → Op → Choice → σ → Bool)
    (okDrop : Nat → Op → σ → Bool) : Machine σ Op Res Choice Call Weather :=
  { M with
    exec := fun i op c s => if okExec i op c s then M.exec i op c s else none
    drop := fun i op s => if okDrop i op s then M.drop i op s else none }

theorem under_true (M : Machine σ Op Res Choice Call Weather) :
    M.under (fun _ _ _ _ => true) (fun _ _ _ => true) = M := rfl

section Under

variable {M : Machine σ Op Res Choice Call Weather} {okExec : Nat → Op → Choice → σ → Bool}
  {okDrop : Nat → Op → σ → Bool} {i : Nat} {op : Op} {s t : σ}

theorem under_exec {c : Choice} {r : Res op}
    (h : (M.under okExec okDrop).exec i op c s = some (r, t)) :
    okExec i op c s = true ∧ M.exec i op c s = some (r, t) :=
  Option.ite_none_right_eq_some.mp h

theorem under_drop (h : (M.under okExec okDrop).drop i op s = some t) :
    okDrop i op s = true ∧ M.drop i op s = some t :=
  Option.ite_none_right_eq_some.mp h

end Under

/-- One task run to its end, with only the environment moving between its operations. -/
inductive Runs (M : Machine σ Op Res Choice Call Weather) (i : Nat) :
    Program Op Res α → σ → α → σ → Prop
  | done {a : α} {s : σ} : Runs M i (.done a) s a s
  | idle {p : Program Op Res α} {s t u : σ} {a : α} (e : Weather) :
      M.idle e s = some t → Runs M i p t a u → Runs M i p s a u
  | exec {op : Op} {next : Res op → Program Op Res α} {s t u : σ} {r : Res op} {a : α}
      (c : Choice) :
      M.exec i op c s = some (r, t) → Runs M i (next r) t a u → Runs M i (.call op next) s a u

/-- A computed solo run: the next move is the environment's own, or its choice
for the next operation. -/
def solo (M : Machine σ Op Res Choice Call Weather) (i : Nat) :
    List (Weather ⊕ Choice) → Program Op Res α → σ → Option (α × σ)
  | [], .done a, s => some (a, s)
  | .inl e :: rest, p, s => (M.idle e s).bind (M.solo i rest p)
  | .inr c :: rest, .call op next, s =>
    (M.exec i op c s).bind fun out => M.solo i rest (next out.1) out.2
  | _, _, _ => none

/-- A computed run is a run. -/
theorem Runs.of_solo {M : Machine σ Op Res Choice Call Weather} {i : Nat}
    {moves : List (Weather ⊕ Choice)} {p : Program Op Res α} {s t : σ} {a : α}
    (h : M.solo i moves p s = some (a, t)) : M.Runs i p s a t := by
  induction moves generalizing p s with
  | nil =>
      cases p with
      | done b =>
          cases h
          exact .done
      | call op next => cases h
  | cons move rest ih =>
      cases move with
      | inl e =>
          have h' : (M.idle e s).bind (M.solo i rest p) = some (a, t) := by
            cases p <;> exact h
          obtain ⟨u, hidle, hrest⟩ := Option.bind_eq_some_iff.mp h'
          exact .idle e hidle (ih hrest)
      | inr c =>
          cases p with
          | done b => cases h
          | call op next =>
              obtain ⟨⟨r, u⟩, hexec, hrest⟩ := Option.bind_eq_some_iff.mp h
              exact .exec c hexec (ih hrest)

end Machine

end Library
