/-!
Conversations: a program that speaks to a peer and may fail. Its state is what it
has said; the peer answers from all of it, and is otherwise arbitrary. A triple
says what holds of what was said when a conversation returns and when it fails.
-/

namespace Library

/-- Messages of type `μ`, failures of type `ε`. -/
def Conversation (μ ε α : Type) : Type := List μ → Except ε α × List μ

namespace Conversation

variable {μ ε α β : Type}

def proceed (f : α → Conversation μ ε β) : Except ε α × List μ → Except ε β × List μ
  | (.ok a, more) => f a more
  | (.error e, more) => (.error e, more)

instance : Monad (Conversation μ ε) where
  pure a := fun said => (.ok a, said)
  bind c f := fun said => proceed f (c said)

def say (answer : List μ → Except ε β) (m : μ) : Conversation μ ε β := fun said =>
  (answer (said ++ [m]), said ++ [m])

def lift (x : Except ε α) : Conversation μ ε α := fun said => (x, said)

def fail (e : ε) : Conversation μ ε α := lift (.error e)

def attempt (c : Conversation μ ε α) : Conversation μ ε (Except ε α) := fun said =>
  (.ok (c said).1, (c said).2)

variable {c : Conversation μ ε α} {f : α → Conversation μ ε β} {said more : List μ} {a : α} {b : β}
  {e : ε}

theorem bind_apply : (c >>= f) said = proceed f (c said) := rfl

theorem bind_eq_ok : (c >>= f) said = (.ok b, more) ↔
    ∃ a mid, c said = (.ok a, mid) ∧ f a mid = (.ok b, more) := by
  rw [bind_apply]
  obtain ⟨result, mid⟩ := c said
  cases result with
  | ok a =>
      constructor
      · exact fun h => ⟨a, mid, rfl, h⟩
      · rintro ⟨_, _, ⟨⟩, h⟩
        exact h
  | error e =>
      constructor
      · intro h
        cases h
      · rintro ⟨_, _, h, _⟩
        cases h

theorem bind_of_ok (h : c said = (.ok a, more)) : (c >>= f) said = f a more := by
  rw [bind_apply, h]
  rfl

theorem lift_eq_ok {x : Except ε α} :
    (lift x : Conversation μ ε α) said = (.ok a, more) ↔ x = .ok a ∧ more = said := by
  rw [lift, Prod.mk.injEq, eq_comm (a := more)]

/-- A step without a word leaves the rest to say. -/
theorem lift_bind_eq_ok {x : Except ε α} :
    ((lift x : Conversation μ ε α) >>= f) said = (.ok b, more) ↔
      ∃ a, x = .ok a ∧ f a said = (.ok b, more) := by
  rw [bind_eq_ok]
  constructor
  · rintro ⟨a, mid, hlift, hf⟩
    obtain ⟨hx, rfl⟩ := lift_eq_ok.mp hlift
    exact ⟨a, hx, hf⟩
  · rintro ⟨a, hx, hf⟩
    exact ⟨a, said, lift_eq_ok.mpr ⟨hx, rfl⟩, hf⟩

theorem lift_bind_of_ok {x : Except ε α} (h : x = .ok a) :
    ((lift x : Conversation μ ε α) >>= f) said = f a said := by
  rw [h]
  rfl

theorem lift_bind_of_error {x : Except ε α} (h : x = .error e) :
    ((lift x : Conversation μ ε α) >>= f) said = (.error e, said) := by
  rw [h]
  rfl

/-- `Q` on return, `E` on failure. -/
def Outcome (Q : α → List μ → Prop) (E : ε → List μ → Prop) : Except ε α × List μ → Prop
  | (.ok a, more) => Q a more
  | (.error e, more) => E e more

/-- From where `P` holds, `Q` holds on return and `E` on failure. -/
def Triple (P : List μ → Prop) (c : Conversation μ ε α) (Q : α → List μ → Prop)
    (E : ε → List μ → Prop) : Prop :=
  ∀ said, P said → Outcome Q E (c said)

section Rules

variable {P P' : List μ → Prop} {Q Q' : α → List μ → Prop} {R : β → List μ → Prop}
  {E E' : ε → List μ → Prop}

theorem Outcome.mono {result : Except ε α × List μ} (h : Outcome Q E result)
    (hQ : ∀ a said, Q a said → Q' a said) (hE : ∀ e said, E e said → E' e said) :
    Outcome Q' E' result := by
  obtain ⟨result, more⟩ := result
  cases result with
  | ok a => exact hQ a more h
  | error e => exact hE e more h

theorem Triple.pure (h : ∀ said, P said → Q a said) : Triple P (Pure.pure a) Q E :=
  fun said hP => h said hP

theorem Triple.fail (h : ∀ said, P said → E e said) : Triple P (fail e) Q E :=
  fun said hP => h said hP

theorem Triple.lift {x : Except ε α} (hok : ∀ a, x = .ok a → ∀ said, P said → Q a said)
    (herror : ∀ e, x = .error e → ∀ said, P said → E e said) : Triple P (lift x) Q E := by
  intro said hP
  cases x with
  | ok a => exact hok a rfl said hP
  | error e => exact herror e rfl said hP

theorem Triple.say {answer : List μ → Except ε α} {m : μ}
    (hok : ∀ said a, P said → answer (said ++ [m]) = .ok a → Q a (said ++ [m]))
    (herror : ∀ said e, P said → answer (said ++ [m]) = .error e → E e (said ++ [m])) :
    Triple P (say answer m) Q E := by
  intro said hP
  unfold Conversation.say
  cases hanswer : answer (said ++ [m]) with
  | ok a => exact hok said a hP hanswer
  | error e => exact herror said e hP hanswer

theorem Triple.bind (hc : Triple P c Q E) (hf : ∀ a, Triple (Q a) (f a) R E) :
    Triple P (c >>= f) R E := by
  intro said hP
  have hfirst := hc said hP
  rw [bind_apply]
  cases hrun : c said with
  | mk result more =>
      rw [hrun] at hfirst
      cases result with
      | ok a => exact hf a more hfirst
      | error e => exact hfirst

theorem Triple.attempt (h : Triple P c Q E) :
    Triple P (attempt c) (fun result said => Outcome Q E (result, said)) E :=
  fun said hP => h said hP

theorem Triple.conseq (h : Triple P c Q E) (hP : ∀ said, P' said → P said)
    (hQ : ∀ a said, Q a said → Q' a said) (hE : ∀ e said, E e said → E' e said) :
    Triple P' c Q' E' :=
  fun said hP' => (h said (hP said hP')).mono hQ hE

end Rules

end Conversation

end Library
