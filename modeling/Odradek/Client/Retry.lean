import Odradek.Client.Error

/-!
The retry loop (`retry.rs`) over the results its attempts come back with. The
pauses between rounds and the caches a classification invalidates are left out.
-/

namespace Odradek.Client

variable {α : Type}

inductive Attempt (α : Type)
  | done (value : α)
  | retry (error : ClientError)
  | fatal (error : ClientError)

/-- `or_mark_stale`, `or_forget_coordinator`, `or_forget_txn_coordinator`. -/
def classified : Except ClientError α → Attempt α
  | .ok value => .done value
  | .error e => if e.isRetriable then .retry e else .fatal e

/-- `retry_loop`: the verdict, once these are the results of all its rounds. -/
def retryLoop : (rounds : Nat) → (last : Option ClientError) → List (Except ClientError α) →
    Option (Except ClientError α)
  | 0, last, [] => some (.error (last.getD .connectionClosed))
  | rounds + 1, _, result :: rest =>
    match classified result with
    | .done value => if rest.isEmpty then some (.ok value) else none
    | .retry e => retryLoop rounds (some e) rest
    | .fatal e => if rest.isEmpty then some (.error e) else none
  | _, _, _ => none

/-- Results after which the loop has not come to a verdict. -/
def stillTrying (rounds : Nat) (results : List (Except ClientError α)) : Bool :=
  results.length ≤ rounds && results.all fun result =>
    match classified result with
    | .retry _ => true
    | _ => false

/-- A verdict is the last result, or there was no round at all. -/
theorem retryLoop_cases {rounds : Nat} {last : Option ClientError}
    {results : List (Except ClientError α)} {verdict : Except ClientError α}
    (h : retryLoop rounds last results = some verdict) :
    (results = [] ∧ verdict = .error (last.getD .connectionClosed)) ∨
      ∃ front, results = front ++ [verdict] ∧ ∀ r ∈ front, ∃ e, r = .error e := by
  induction rounds generalizing last results with
  | zero =>
      cases results with
      | nil =>
          cases h
          exact .inl ⟨rfl, rfl⟩
      | cons _ _ => cases h
  | succ rounds ih =>
      cases results with
      | nil => cases h
      | cons result rest =>
          right
          cases result with
          | ok value =>
              obtain ⟨hrest, heq⟩ := Option.ite_none_right_eq_some.mp h
              cases heq
              refine ⟨[], ?_, fun r hr => by cases hr⟩
              rw [List.isEmpty_iff.mp hrest, List.nil_append]
          | error e =>
              cases hretry : e.isRetriable with
              | true =>
                  have hrest : retryLoop rounds (some e) rest = some verdict := by
                    simpa only [retryLoop, classified, hretry, if_true] using h
                  rcases ih hrest with ⟨rfl, rfl⟩ | ⟨front, rfl, hfront⟩
                  · exact ⟨[], rfl, fun r hr => by cases hr⟩
                  · refine ⟨.error e :: front, rfl, ?_⟩
                    intro r hr
                    rcases List.mem_cons.mp hr with rfl | hr
                    · exact ⟨e, rfl⟩
                    · exact hfront r hr
              | false =>
                  have hlast : (if rest.isEmpty then some (Except.error e) else none) =
                      some verdict := by
                    simpa only [retryLoop, classified, hretry, Bool.false_eq_true, if_false] using h
                  obtain ⟨hrest, heq⟩ := Option.ite_none_right_eq_some.mp hlast
                  cases heq
                  refine ⟨[], ?_, fun r hr => by cases hr⟩
                  rw [List.isEmpty_iff.mp hrest, List.nil_append]

section Supplied

variable {σ Env : Type} {attempt : Env → σ → Attempt α × σ} {rounds : Nat}
  {last : Option ClientError} {envs : Nat → Env} {s t : σ} {P : σ → Prop}

/-- `retry_loop` where an attempt changes the state it is handed, over what each of the
rounds would meet. -/
def retryOver (attempt : Env → σ → Attempt α × σ) :
    (rounds : Nat) → (last : Option ClientError) → (envs : Nat → Env) → σ → Except ClientError α × σ
  | 0, last, _, s => (.error (last.getD .connectionClosed), s)
  | rounds + 1, _, envs, s =>
    match attempt (envs 0) s with
    | (.done value, t) => (.ok value, t)
    | (.retry e, t) => retryOver attempt rounds (some e) (fun i => envs (i + 1)) t
    | (.fatal e, t) => (.error e, t)

theorem retryOver_done {value : α} (hrounds : 1 ≤ rounds)
    (h : attempt (envs 0) s = (.done value, t)) :
    retryOver attempt rounds last envs s = (.ok value, t) := by
  obtain ⟨rounds, rfl⟩ := Nat.exists_eq_add_of_le' hrounds
  unfold retryOver
  rw [h]

theorem retryOver_fatal {e : ClientError} (hrounds : 1 ≤ rounds)
    (h : attempt (envs 0) s = (.fatal e, t)) :
    retryOver attempt rounds last envs s = (.error e, t) := by
  obtain ⟨rounds, rfl⟩ := Nat.exists_eq_add_of_le' hrounds
  unfold retryOver
  rw [h]

theorem retryOver_retry {e : ClientError} (h : attempt (envs 0) s = (.retry e, t)) :
    retryOver attempt (rounds + 1) last envs s =
      retryOver attempt rounds (some e) (fun i => envs (i + 1)) t := by
  rw [retryOver, h]

/-- A loop none of whose attempts gets anywhere uses up all of them. -/
theorem retryOver_exhausted (hs : P s)
    (hattempt : ∀ i s, P s → ∃ e t, attempt (envs i) s = (.retry e, t) ∧ P t) :
    ∃ e t, retryOver attempt rounds last envs s = (.error e, t) ∧ P t := by
  induction rounds generalizing last envs s with
  | zero => exact ⟨_, s, rfl, hs⟩
  | succ rounds ih =>
      obtain ⟨e, t, hretry, ht⟩ := hattempt 0 s hs
      rw [retryOver_retry hretry]
      exact ih ht fun i => hattempt (i + 1)

end Supplied

section Rounds

variable {σ Env : Type} {allowed : Env → σ → Bool} {attempt : Env → σ → Attempt α × σ}
  {rounds : Nat} {last : Option ClientError} {envs : List Env} {s t : σ}

/-- `retry_loop` where an attempt changes the state it is handed. `envs` is what each
round meets; it fits if the loop ends with it and every round is allowed. -/
def retryRounds (allowed : Env → σ → Bool) (attempt : Env → σ → Attempt α × σ) :
    (rounds : Nat) → (last : Option ClientError) → List Env → σ →
      Option (Except ClientError α × σ)
  | 0, last, [], s => some (.error (last.getD .connectionClosed), s)
  | rounds + 1, _, env :: envs, s =>
    if allowed env s then
      match attempt env s with
      | (.done value, t) => if envs.isEmpty then some (.ok value, t) else none
      | (.retry e, t) => retryRounds allowed attempt rounds (some e) envs t
      | (.fatal e, t) => if envs.isEmpty then some (.error e, t) else none
    else none
  | _, _, _, _ => none

/-- What every allowed attempt keeps, the loop keeps. -/
theorem retryRounds_keeps {P : σ → Prop} {r : Except ClientError α}
    (hattempt : ∀ env s, allowed env s = true → P s → P (attempt env s).2) (hs : P s)
    (h : retryRounds allowed attempt rounds last envs s = some (r, t)) : P t := by
  induction rounds generalizing last envs s with
  | zero =>
      cases envs with
      | nil => cases h; exact hs
      | cons _ _ => cases h
  | succ rounds ih =>
      cases envs with
      | nil => cases h
      | cons env envs =>
          obtain ⟨hallowed, hrest⟩ := Option.ite_none_right_eq_some.mp h
          have hnext := hattempt env s hallowed hs
          generalize attempt env s = outcome at hrest hnext
          obtain ⟨attempt', u⟩ := outcome
          cases attempt' with
          | done value =>
              obtain ⟨_, heq⟩ := Option.ite_none_right_eq_some.mp hrest
              cases heq
              exact hnext
          | retry e => exact ih hnext hrest
          | fatal e =>
              obtain ⟨_, heq⟩ := Option.ite_none_right_eq_some.mp hrest
              cases heq
              exact hnext

/-- What a loop that fails has made of a part of the state, where every attempt that does
not succeed makes the same of it. -/
theorem retryRounds_error {β : Type} {e : ClientError} (view : σ → β) (next : β → Env → β)
    (hattempt : ∀ env s, allowed env s = true → (∀ value, (attempt env s).1 ≠ .done value) →
      view (attempt env s).2 = next (view s) env)
    (h : retryRounds allowed attempt rounds last envs s = some (.error e, t)) :
    view t = envs.foldl next (view s) := by
  induction rounds generalizing last envs s with
  | zero =>
      cases envs with
      | nil => cases h; rfl
      | cons _ _ => cases h
  | succ rounds ih =>
      cases envs with
      | nil => cases h
      | cons env envs =>
          obtain ⟨hallowed, hrest⟩ := Option.ite_none_right_eq_some.mp h
          have hnext := hattempt env s hallowed
          generalize attempt env s = outcome at hrest hnext
          obtain ⟨attempt', u⟩ := outcome
          cases attempt' with
          | done value =>
              obtain ⟨_, heq⟩ := Option.ite_none_right_eq_some.mp hrest
              cases heq
          | retry e =>
              rw [ih hrest, hnext fun value heq => by cases heq]
              rfl
          | fatal e =>
              obtain ⟨hlast, heq⟩ := Option.ite_none_right_eq_some.mp hrest
              cases heq
              rw [List.isEmpty_iff.mp hlast]
              exact hnext fun value heq => by cases heq

end Rounds

end Odradek.Client
