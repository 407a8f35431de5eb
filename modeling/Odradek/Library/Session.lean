import Odradek.Library.Program
import Odradek.Library.Reachable

/-!
Calls that have an object to themselves, one after the other. A call is a program
of operations; it runs to its end, or is dropped in one that waits. What happens
in an operation, or in one that is dropped, is a choice of the environment.

`Ends` is what a call does, read off its program from the front: the inversion
lemmas below take a `bind` apart, so that a proof about a call is a walk through
its operations.
-/

namespace Library

structure Service (σ Op : Type) (Res : Op → Type) (Choice : Type) where
  exec : (op : Op) → Choice → σ → Option (Res op × σ)
  drop : Op → Choice → σ → Option σ

namespace Service

variable {σ Op Choice Call : Type} {Res : Op → Type} {α β ε : Type}

/-- The service without the steps that do not meet a condition. -/
def under (S : Service σ Op Res Choice) (okExec okDrop : Op → Choice → σ → Bool) :
    Service σ Op Res Choice :=
  { exec := fun op c s => if okExec op c s then S.exec op c s else none
    drop := fun op c s => if okDrop op c s then S.drop op c s else none }

/-- From `s`, the program ends in `t`: with a result, or dropped. -/
inductive Ends (S : Service σ Op Res Choice) : Program Op Res α → σ → Option α → σ → Prop
  | done {a : α} {s : σ} : Ends S (.done a) s (some a) s
  | exec {op : Op} {next : Res op → Program Op Res α} {s t u : σ} {r : Res op} {out : Option α}
      (c : Choice) : S.exec op c s = some (r, t) → Ends S (next r) t out u →
      Ends S (.call op next) s out u
  | drop {op : Op} {next : Res op → Program Op Res α} {s t : σ} (c : Choice) :
      S.drop op c s = some t → Ends S (.call op next) s none t

variable {S : Service σ Op Res Choice} {okExec okDrop : Op → Choice → σ → Bool} {op : Op}
  {c : Choice} {s t u : σ} {out : Option α} {p : Program Op Res α}

theorem under_exec {r : Res op} (h : (S.under okExec okDrop).exec op c s = some (r, t)) :
    okExec op c s = true ∧ S.exec op c s = some (r, t) :=
  Option.ite_none_right_eq_some.mp h

theorem under_drop (h : (S.under okExec okDrop).drop op c s = some t) :
    okDrop op c s = true ∧ S.drop op c s = some t :=
  Option.ite_none_right_eq_some.mp h

/-- A condition that is always met. -/
theorem under_true : S.under (fun _ _ _ => true) (fun _ _ _ => true) = S := rfl

theorem ends_done {a : α} (h : S.Ends (.done a) s out t) : out = some a ∧ s = t := by
  cases h
  exact ⟨rfl, rfl⟩

theorem ends_perform {out : Option (Res op)} (h : S.Ends (Program.perform op) s out t) :
    (∃ c r, S.exec op c s = some (r, t) ∧ out = some r) ∨
      (∃ c, S.drop op c s = some t ∧ out = none) := by
  cases h with
  | exec c hexec hdone =>
      obtain ⟨rfl, rfl⟩ := ends_done hdone
      exact .inl ⟨c, _, hexec, rfl⟩
  | drop c hdrop => exact .inr ⟨c, hdrop, rfl⟩

theorem ends_bind {f : α → Program Op Res β} {out : Option β} (h : S.Ends (p.bind f) s out u) :
    (∃ a t, S.Ends p s (some a) t ∧ S.Ends (f a) t out u) ∨
      (S.Ends p s none u ∧ out = none) := by
  induction p generalizing s with
  | done a => exact .inl ⟨a, s, .done, h⟩
  | call op next ih =>
      cases h with
      | drop c hdrop => exact .inr ⟨.drop c hdrop, rfl⟩
      | exec c hexec hrest =>
          rcases ih _ hrest with ⟨a, t, hfirst, hlast⟩ | ⟨hfirst, rfl⟩
          · exact .inl ⟨a, t, .exec c hexec hfirst, hlast⟩
          · exact .inr ⟨.exec c hexec hfirst, rfl⟩

/-- One program after another. -/
theorem Ends.bind {f : α → Program Op Res β} {out : Option β} {a : α} (hp : S.Ends p s (some a) t)
    (hf : S.Ends (f a) t out u) : S.Ends (p.bind f) s out u := by
  induction p generalizing s with
  | done b =>
      obtain ⟨heq, rfl⟩ := ends_done hp
      cases heq
      exact hf
  | call op next ih =>
      cases hp with
      | exec c hexec hrest => exact .exec c hexec (ih _ hrest)

theorem Ends.perform {r : Res op} (c : Choice) (h : S.exec op c s = some (r, t)) :
    S.Ends (Program.perform op) s (some r) t :=
  .exec c h .done

theorem ends_bindOf {f : α → Program Op Res β} {out : Option β} {a : α}
    (hp : ∀ {out t}, S.Ends p s out t → out = some a ∧ u = t) (h : S.Ends (p.bind f) s out t) :
    S.Ends (f a) u out t := by
  rcases ends_bind h with ⟨b, v, hfirst, hrest⟩ | ⟨hdropped, _⟩
  · obtain ⟨hb, rfl⟩ := hp hfirst
    cases hb
    exact hrest
  · cases (hp hdropped).1

section Try

variable {x : ExceptT ε (Program Op Res) α} {f : α → ExceptT ε (Program Op Res) β}
  {out : Option (Except ε β)}

/-- `?`: an error is the result of the whole. -/
theorem ends_tryBind (h : S.Ends (x >>= f).run s out u) :
    (∃ a t, S.Ends x.run s (some (.ok a)) t ∧ S.Ends (f a).run t out u) ∨
      (∃ e, S.Ends x.run s (some (.error e)) u ∧ out = some (.error e)) ∨
      (S.Ends x.run s none u ∧ out = none) := by
  rcases ends_bind (p := x.run) (f := ExceptT.bindCont f) h with ⟨r, t, hx, hrest⟩ | hdropped
  · cases r with
    | ok a => exact .inl ⟨a, t, hx, hrest⟩
    | error e =>
        obtain ⟨rfl, rfl⟩ := ends_done hrest
        exact .inr (.inl ⟨e, hx, rfl⟩)
  · exact .inr (.inr hdropped)

theorem Ends.tryBind {a : α} (hx : S.Ends x.run s (some (.ok a)) t)
    (hf : S.Ends (f a).run t out u) : S.Ends (x >>= f).run s out u :=
  Ends.bind (p := x.run) (f := ExceptT.bindCont f) hx hf

theorem Ends.caught {ε' : Type} {r : Except ε α} (hx : S.Ends x.run s (some r) t) :
    S.Ends (Program.caught x : ExceptT ε' (Program Op Res) _).run s (some (.ok r)) t :=
  Ends.bind hx .done

theorem Ends.liftBind {a : α} (hp : S.Ends p s (some a) t) (hf : S.Ends (f a).run t out u) :
    S.Ends ((liftM p : ExceptT ε (Program Op Res) α) >>= f).run s out u :=
  Ends.tryBind (Ends.bind hp .done) hf

theorem ends_lift {out : Option (Except ε α)}
    (h : S.Ends (liftM p : ExceptT ε (Program Op Res) α).run s out t) :
    (∃ a, S.Ends p s (some a) t ∧ out = some (.ok a)) ∨ (S.Ends p s none t ∧ out = none) := by
  rcases ends_bind h with ⟨a, u, hp, hdone⟩ | ⟨hp, rfl⟩
  · obtain ⟨rfl, rfl⟩ := ends_done hdone
    exact .inl ⟨a, hp, rfl⟩
  · exact .inr ⟨hp, rfl⟩

theorem ends_liftBind
    (h : S.Ends ((liftM p : ExceptT ε (Program Op Res) α) >>= f).run s out u) :
    (∃ a t, S.Ends p s (some a) t ∧ S.Ends (f a).run t out u) ∨
      (S.Ends p s none u ∧ out = none) := by
  rcases ends_tryBind h with ⟨a, t, hx, hrest⟩ | ⟨e, hx, rfl⟩ | ⟨hx, rfl⟩
  · rcases ends_lift hx with ⟨b, hp, hb⟩ | ⟨_, hnone⟩
    · cases hb
      exact .inl ⟨a, t, hp, hrest⟩
    · cases hnone
  · rcases ends_lift hx with ⟨b, _, hb⟩ | ⟨_, hnone⟩
    · cases hb
    · cases hnone
  · rcases ends_lift hx with ⟨b, _, hb⟩ | ⟨hp, _⟩
    · cases hb
    · exact .inr ⟨hp, rfl⟩

/-- What comes after a program that ends one way only. -/
theorem ends_liftBindOf {a : α} (hp : ∀ {out t}, S.Ends p s out t → out = some a ∧ u = t)
    (h : S.Ends ((liftM p : ExceptT ε (Program Op Res) α) >>= f).run s out t) :
    S.Ends (f a).run u out t := by
  rcases ends_liftBind h with ⟨b, v, hfirst, hrest⟩ | ⟨hdropped, _⟩
  · obtain ⟨hb, rfl⟩ := hp hfirst
    cases hb
    exact hrest
  · cases (hp hdropped).1

theorem ends_caught {ε' : Type} {out : Option (Except ε' (Except ε α))}
    (h : S.Ends (Program.caught x : ExceptT ε' (Program Op Res) _).run s out t) :
    (∃ r, S.Ends x.run s (some r) t ∧ out = some (.ok r)) ∨
    (S.Ends x.run s none t ∧ out = none) := by
  rcases ends_bind h with ⟨r, u, hx, hdone⟩ | ⟨hx, rfl⟩
  · obtain ⟨rfl, rfl⟩ := ends_done hdone
    exact .inl ⟨r, hx, rfl⟩
  · exact .inr ⟨hx, rfl⟩

theorem ends_caughtBind {ε' : Type} {f : Except ε α → ExceptT ε' (Program Op Res) β}
    {out : Option (Except ε' β)} (h : S.Ends (Program.caught x >>= f).run s out u) :
    (∃ r t, S.Ends x.run s (some r) t ∧ S.Ends (f r).run t out u) ∨
      (S.Ends x.run s none u ∧ out = none) := by
  rcases ends_tryBind h with ⟨a, t, hx, hrest⟩ | ⟨e, hx, rfl⟩ | ⟨hx, rfl⟩
  · rcases ends_caught hx with ⟨b, hrun, hb⟩ | ⟨_, hnone⟩
    · cases hb
      exact .inl ⟨a, t, hrun, hrest⟩
    · cases hnone
  · rcases ends_caught hx with ⟨b, _, hb⟩ | ⟨_, hnone⟩
    · cases hb
    · cases hnone
  · rcases ends_caught hx with ⟨b, _, hb⟩ | ⟨hrun, _⟩
    · cases hb
    · exact .inr ⟨hrun, rfl⟩

end Try

/-- The states some sequence of calls leads to, where `mayDrop` says which calls
can be dropped. -/
def Sessions (S : Service σ Op Res Choice) (body : Call → Program Op Res α)
    (mayDrop : Call → Bool) (init : σ → Prop) : σ → Prop :=
  Reachable init fun s call t =>
    ∃ out, S.Ends (body call) s out t ∧ (out = none → mayDrop call = true)

inductive Turn (Choice : Type)
  | go (c : Choice)
  | drop (c : Choice)

def replay (S : Service σ Op Res Choice) :
    List (Turn Choice) → Program Op Res α → σ → Option (Option α × σ)
  | [], .done a, s => some (some a, s)
  | .go c :: turns, .call op next, s =>
    (S.exec op c s).bind fun out => S.replay turns (next out.1) out.2
  | [.drop c], .call op _, s => (S.drop op c s).map fun t => (none, t)
  | _, _, _ => none

/-- A computed call is a call. -/
theorem Ends.of_replay {turns : List (Turn Choice)}
    (h : S.replay turns p s = some (out, t)) : S.Ends p s out t := by
  induction turns generalizing p s with
  | nil =>
      cases p with
      | done a =>
          cases h
          exact .done
      | call op next => cases h
  | cons turn turns ih =>
      cases p with
      | done a => cases turn <;> cases turns <;> cases h
      | call op next =>
          cases turn with
          | go c =>
              obtain ⟨⟨r, u⟩, hexec, hrest⟩ := Option.bind_eq_some_iff.mp h
              exact .exec c hexec (ih hrest)
          | drop c =>
              cases turns with
              | nil =>
                  obtain ⟨u, hdrop, heq⟩ := Option.map_eq_some_iff.mp h
                  cases heq
                  exact .drop c hdrop
              | cons _ _ => cases h

def replayAll (S : Service σ Op Res Choice) (body : Call → Program Op Res α)
    (mayDrop : Call → Bool) : List (Call × List (Turn Choice)) → σ → Option σ
  | [], s => some s
  | (call, turns) :: rest, s =>
    (S.replay turns (body call) s).bind fun out =>
      if out.1.isSome || mayDrop call then S.replayAll body mayDrop rest out.2 else none

theorem Sessions.of_replayAll {body : Call → Program Op Res α} {mayDrop : Call → Bool}
    {init : σ → Prop} {calls : List (Call × List (Turn Choice))}
    (hs : S.Sessions body mayDrop init s) (h : S.replayAll body mayDrop calls s = some t) :
    S.Sessions body mayDrop init t := by
  induction calls generalizing s with
  | nil =>
      cases h
      exact hs
  | cons call rest ih =>
      obtain ⟨⟨out, u⟩, hcall, hrest⟩ := Option.bind_eq_some_iff.mp h
      obtain ⟨hmay, hrest⟩ := Option.ite_none_right_eq_some.mp hrest
      refine ih (.step call.1 hs ⟨out, .of_replay hcall, ?_⟩) hrest
      rintro rfl
      exact hmay

end Service

end Library
