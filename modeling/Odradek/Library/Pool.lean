import Odradek.Library.Program
import Odradek.Library.Reachable

/-!
Any number of tasks over one shared state, taking turns operation by operation,
and the rely/guarantee rule for them: a task is judged against whatever the
others may do between two of its operations.
-/

namespace Library

variable {σ Op Choice Call Weather : Type} {Res : Op → Type} {α β : Type}

structure Pool (σ Op : Type) (Res : Op → Type) where
  shared : σ
  tasks : List (Program Op Res Unit)

inductive Move (Choice Call Weather : Type)
  | start (call : Call)
  | act (i : Nat) (c : Choice)
  | drop (i : Nat)
  | idle (e : Weather)

def Pool.fresh (s : σ) : Pool σ Op Res := { shared := s, tasks := [] }

namespace Machine

variable (M : Machine σ Op Res Choice Call Weather)

def next (pool : Pool σ Op Res) : Move Choice Call Weather → Option (Pool σ Op Res)
  | .start call =>
    (M.begin pool.tasks.length call pool.shared).map fun s =>
      { shared := s, tasks := pool.tasks ++ [M.body call] }
  | .act i c =>
    match pool.tasks[i]? with
    | some (.call op rest) =>
      (M.exec i op c pool.shared).map fun out =>
        { shared := out.2, tasks := pool.tasks.set i (rest out.1) }
    | _ => none
  | .drop i =>
    match pool.tasks[i]? with
    | some (.call op _) =>
      (M.drop i op pool.shared).map fun s =>
        { shared := s, tasks := pool.tasks.set i (.done ()) }
    | _ => none
  | .idle e => (M.idle e pool.shared).map fun s => { pool with shared := s }

/-- The pools some run from an initial state reaches. -/
def Reaches (init : σ → Prop) : Pool σ Op Res → Prop :=
  Reachable (fun pool => ∃ s, init s ∧ pool = .fresh s) fun pool move pool' =>
    M.next pool move = some pool'

def Later (pool : Pool σ Op Res) : Pool σ Op Res → Prop :=
  Reachable (· = pool) fun pool move pool' => M.next pool move = some pool'

def play (pool : Pool σ Op Res) : List (Move Choice Call Weather) → Option (Pool σ Op Res)
  | [] => some pool
  | move :: moves => (M.next pool move).bind (play · moves)

variable {M}

/-- A computed run is a run. -/
theorem Later.of_play {pool pool' pool'' : Pool σ Op Res}
    {moves : List (Move Choice Call Weather)} (h : M.Later pool pool')
    (hplay : M.play pool' moves = some pool'') : M.Later pool pool'' := by
  induction moves generalizing pool' with
  | nil =>
      cases hplay
      exact h
  | cons move moves ih =>
      obtain ⟨mid, hnext, hrest⟩ := Option.bind_eq_some_iff.mp hplay
      exact ih (.step move h hnext) hrest

theorem Later.refl {pool : Pool σ Op Res} : M.Later pool pool := .start rfl

theorem Reaches.later {init : σ → Prop} {pool pool' : Pool σ Op Res}
    (h : M.Reaches init pool) (hlater : M.Later pool pool') : M.Reaches init pool' := by
  induction hlater with
  | start heq => exact heq ▸ h
  | step move _ hnext ih => exact .step move ih hnext

theorem Reaches.of_play {init : σ → Prop} {s : σ} {pool : Pool σ Op Res}
    {moves : List (Move Choice Call Weather)} (hinit : init s)
    (hplay : M.play (.fresh s) moves = some pool) : M.Reaches init pool :=
  Reaches.later (.start ⟨s, hinit, rfl⟩) (Later.of_play .refl hplay)

end Machine

/-- What holds at every operation boundary, and what task `i` may expect of the
others there. -/
structure Discipline (M : Machine σ Op Res Choice Call Weather) where
  Inv : σ → Prop
  Rely : Nat → σ → σ → Prop
  refl : ∀ i s, Rely i s s
  trans : ∀ i s t u, Rely i s t → Rely i t u → Rely i s u
  idle : ∀ e s t, Inv s → M.idle e s = some t → Inv t ∧ ∀ i, Rely i s t

namespace Discipline

variable {M : Machine σ Op Res Choice Call Weather} (D : Discipline M)

/-- A step of task `i` that the other tasks can live with. -/
def Keeps (i : Nat) (s t : σ) : Prop := D.Inv t ∧ ∀ j, j ≠ i → D.Rely j s t

/-- Run by task `i` from `s`, the program keeps the discipline and ends in `Q`. -/
def Sat (i : Nat) : Program Op Res α → (α → σ → Prop) → σ → Prop
  | .done a, Q, s => ∀ t, D.Rely i s t → D.Inv t → Q a t
  | .call op next, Q, s => ∀ t, D.Rely i s t → D.Inv t →
      (∀ c r u, M.exec i op c t = some (r, u) → D.Keeps i t u ∧ Sat i (next r) Q u) ∧
      ∀ u, M.drop i op t = some u → D.Keeps i t u

variable {D} {i : Nat} {p : Program Op Res α} {Q Q' : α → σ → Prop} {s t : σ}

/-- It is enough to look at a program after the others have moved. -/
theorem Sat.settle (h : ∀ t, D.Rely i s t → D.Inv t → D.Sat i p Q t) : D.Sat i p Q s := by
  cases p with
  | done a =>
      intro t hrely hinv
      exact h t hrely hinv t (D.refl i t) hinv
  | call op next =>
      intro t hrely hinv
      exact h t hrely hinv t (D.refl i t) hinv

theorem Sat.rely (h : D.Sat i p Q s) (hrely : D.Rely i s t) : D.Sat i p Q t := by
  cases p with
  | done a => exact fun u hu hinv => h u (D.trans i s t u hrely hu) hinv
  | call op next => exact fun u hu hinv => h u (D.trans i s t u hrely hu) hinv

theorem Sat.mono (h : D.Sat i p Q s) (himp : ∀ a t, D.Inv t → Q a t → Q' a t) :
    D.Sat i p Q' s := by
  induction p generalizing s with
  | done a => exact fun t hrely hinv => himp a t hinv (h t hrely hinv)
  | call op next ih =>
      intro t hrely hinv
      obtain ⟨hexec, hdrop⟩ := h t hrely hinv
      refine ⟨?_, hdrop⟩
      intro c r u hu
      obtain ⟨hkeeps, hrest⟩ := hexec c r u hu
      exact ⟨hkeeps, ih r hrest⟩

theorem Sat.bind {f : α → Program Op Res β} {Q : β → σ → Prop}
    (h : D.Sat i p (fun a t => D.Sat i (f a) Q t) s) : D.Sat i (p.bind f) Q s := by
  induction p generalizing s with
  | done a => exact .settle h
  | call op next ih =>
      intro t hrely hinv
      obtain ⟨hexec, hdrop⟩ := h t hrely hinv
      refine ⟨?_, hdrop⟩
      intro c r u hu
      obtain ⟨hkeeps, hrest⟩ := hexec c r u hu
      exact ⟨hkeeps, ih r hrest⟩

theorem Sat.perform {op : Op} {Q : Res op → σ → Prop}
    (hexec : ∀ t, D.Rely i s t → D.Inv t → ∀ c r u, M.exec i op c t = some (r, u) →
      D.Keeps i t u ∧ ∀ v, D.Rely i u v → D.Inv v → Q r v)
    (hdrop : ∀ t, D.Rely i s t → D.Inv t → ∀ u, M.drop i op t = some u → D.Keeps i t u) :
    D.Sat i (Program.perform op) Q s :=
  fun t hrely hinv => ⟨hexec t hrely hinv, hdrop t hrely hinv⟩

section Try

variable {ε : Type} {x : ExceptT ε (Program Op Res) α} {f : α → ExceptT ε (Program Op Res) β}
  {Q : Except ε β → σ → Prop}

theorem Sat.done {a : α} {Q : α → σ → Prop} (h : ∀ t, D.Rely i s t → D.Inv t → Q a t) :
    D.Sat i (.done a) Q s := h

/-- `?`: an error is the result of the whole. -/
theorem Sat.tryBind
    (h : D.Sat i x.run (fun r t => match r with
      | .ok a => D.Sat i (f a).run Q t
      | .error e => Q (.error e) t) s) : D.Sat i (x >>= f).run Q s := by
  have hbind : ∀ (p : Program Op Res (Except ε α)) (s : σ),
      D.Sat i p (fun r t => match r with
        | .ok a => D.Sat i (f a).run Q t
        | .error e => Q (.error e) t) s →
      D.Sat i (p.bind (ExceptT.bindCont f)) Q s := by
    intro p
    induction p with
    | done r =>
        intro s h
        cases r with
        | ok a => exact .settle h
        | error e => exact h
    | call op next ih =>
        intro s h t hrely hinv
        obtain ⟨hexec, hdrop⟩ := h t hrely hinv
        refine ⟨?_, hdrop⟩
        intro c r u hu
        obtain ⟨hkeeps, hrest⟩ := hexec c r u hu
        exact ⟨hkeeps, ih r u hrest⟩
  exact hbind x.run s h

theorem Sat.liftBind {p : Program Op Res α} (h : D.Sat i p (fun a t => D.Sat i (f a).run Q t) s) :
    D.Sat i ((liftM p : ExceptT ε (Program Op Res) α) >>= f).run Q s := by
  refine Sat.bind (Sat.bind (h.mono ?_))
  intro a t _ hr u hrely hinv
  exact hr.rely hrely

end Try

/-- A task alone with its environment. -/
theorem Sat.runs {a : α} (h : D.Sat i p Q s) (hinv : D.Inv s) (hruns : M.Runs i p s a t) :
    D.Inv t ∧ Q a t ∧ ∀ j, j ≠ i → D.Rely j s t := by
  induction hruns with
  | done => exact ⟨hinv, h _ (D.refl i _) hinv, fun j _ => D.refl j _⟩
  | idle e hidle _ ih =>
      obtain ⟨hinv', hrely⟩ := D.idle e _ _ hinv hidle
      obtain ⟨hend, hq, hothers⟩ := ih (h.rely (hrely i)) hinv'
      exact ⟨hend, hq, fun j hj => D.trans j _ _ _ (hrely j) (hothers j hj)⟩
  | exec c hexec _ ih =>
      obtain ⟨⟨hinv', hrely⟩, hrest⟩ := (h _ (D.refl i _) hinv).1 c _ _ hexec
      obtain ⟨hend, hq, hothers⟩ := ih hrest hinv'
      exact ⟨hend, hq, fun j hj => D.trans j _ _ _ (hrely j hj) (hothers j hj)⟩

/-- Every call, started in any state, keeps the discipline to its end. -/
def Starts (D : Discipline M) : Prop := ∀ i call s t, D.Inv s → M.begin i call s = some t →
  D.Keeps i s t ∧ D.Sat i (M.body call) (fun _ _ => True) t

/-- What holds of a pool whose tasks all keep the discipline. -/
def Holds (D : Discipline M) (pool : Pool σ Op Res) : Prop :=
  D.Inv pool.shared ∧
    ∀ i p, pool.tasks[i]? = some p → D.Sat i p (fun _ _ => True) pool.shared

theorem length_le_of_next {pool pool' : Pool σ Op Res} {move : Move Choice Call Weather}
    (hnext : M.next pool move = some pool') : pool.tasks.length ≤ pool'.tasks.length := by
  cases move <;> simp only [Machine.next] at hnext
  case start call =>
      obtain ⟨s, _, rfl⟩ := Option.map_eq_some_iff.mp hnext
      rw [List.length_append]
      exact Nat.le_add_right _ _
  case idle e =>
      obtain ⟨s, _, rfl⟩ := Option.map_eq_some_iff.mp hnext
      exact Nat.le_refl _
  all_goals
    split at hnext
    next =>
        obtain ⟨out, _, rfl⟩ := Option.map_eq_some_iff.mp hnext
        exact Nat.le_of_eq (List.length_set).symm
    next => cases hnext

/-- Task `i` moved on to `q`, and the others can live with what it did. -/
theorem Holds.set {pool : Pool σ Op Res} {i : Nat} {q : Program Op Res Unit} {s : σ}
    (h : D.Holds pool) (hlt : i < pool.tasks.length) (hkeeps : D.Keeps i pool.shared s)
    (hq : D.Sat i q (fun _ _ => True) s) :
    D.Holds { shared := s, tasks := pool.tasks.set i q } ∧
      ∀ j, pool.tasks.length ≤ j → D.Rely j pool.shared s := by
  refine ⟨⟨hkeeps.1, ?_⟩, fun j hj => hkeeps.2 j (Nat.ne_of_gt (Nat.lt_of_lt_of_le hlt hj))⟩
  intro j p hp
  by_cases hj : i = j
  · subst hj
    rw [List.getElem?_set_self hlt] at hp
    cases hp
    exact hq
  · rw [List.getElem?_set_ne hj] at hp
    exact (h.2 j p hp).rely (hkeeps.2 j (Ne.symm hj))

/-- A move of any task keeps what holds of the pool. -/
theorem Holds.next {pool pool' : Pool σ Op Res} {move : Move Choice Call Weather}
    (hstarts : D.Starts) (h : D.Holds pool) (hnext : M.next pool move = some pool') :
    D.Holds pool' ∧
      ∀ j, pool'.tasks.length ≤ j → D.Rely j pool.shared pool'.shared := by
  obtain ⟨hinv, hsat⟩ := h
  cases move <;> simp only [Machine.next] at hnext
  case start call =>
      obtain ⟨s, hbegin, rfl⟩ := Option.map_eq_some_iff.mp hnext
      obtain ⟨⟨hinv', hothers⟩, hbody⟩ := hstarts _ call _ _ hinv hbegin
      refine ⟨⟨hinv', ?_⟩, ?_⟩
      · intro i p hp
        rcases Nat.lt_trichotomy i pool.tasks.length with hlt | heq | hgt
        · rw [List.getElem?_append_left hlt] at hp
          exact (hsat i p hp).rely (hothers i (Nat.ne_of_lt hlt))
        · rw [heq, List.getElem?_concat_length] at hp
          cases hp
          exact heq ▸ hbody
        · rw [List.getElem?_eq_none (by rw [List.length_append]; exact hgt)] at hp
          cases hp
      · intro j hj
        rw [List.length_append] at hj
        exact hothers j (Nat.ne_of_gt hj)
  case act i c =>
      split at hnext
      next op rest htask =>
          obtain ⟨⟨r, s⟩, hexec, rfl⟩ := Option.map_eq_some_iff.mp hnext
          obtain ⟨hkeeps, hrest⟩ := (hsat i _ htask _ (D.refl i _) hinv).1 c r s hexec
          have hlt := (List.getElem?_eq_some_iff.mp htask).1
          simp only [List.length_set]
          exact Holds.set ⟨hinv, hsat⟩ hlt hkeeps hrest
      next => cases hnext
  case drop i =>
      split at hnext
      next op rest htask =>
          obtain ⟨s, hdrop, rfl⟩ := Option.map_eq_some_iff.mp hnext
          have hkeeps := (hsat i _ htask _ (D.refl i _) hinv).2 s hdrop
          have hlt := (List.getElem?_eq_some_iff.mp htask).1
          simp only [List.length_set]
          exact Holds.set ⟨hinv, hsat⟩ hlt hkeeps fun _ _ _ => trivial
      next => cases hnext
  case idle e =>
      obtain ⟨s, hidle, rfl⟩ := Option.map_eq_some_iff.mp hnext
      obtain ⟨hinv', hothers⟩ := D.idle e _ _ hinv hidle
      exact ⟨⟨hinv', fun i p hp => (hsat i p hp).rely (hothers i)⟩, fun j _ => hothers j⟩

/-- Every run of the pool keeps the discipline. -/
theorem Holds.of_reaches {init : σ → Prop} {pool : Pool σ Op Res} (hstarts : D.Starts)
    (hinit : ∀ s, init s → D.Inv s) (h : M.Reaches init pool) : D.Holds pool := by
  induction h with
  | start hs =>
      obtain ⟨s, hs, rfl⟩ := hs
      exact ⟨hinit s hs, fun i p hp => by cases hp⟩
  | step move _ hnext ih => exact (ih.next hstarts hnext).1

/-- What any run does to the shared state is what an onlooker may expect. -/
theorem Holds.later {pool pool' : Pool σ Op Res} (hstarts : D.Starts) (h : D.Holds pool)
    (hlater : M.Later pool pool') :
    D.Holds pool' ∧
      ∀ j, pool'.tasks.length ≤ j → D.Rely j pool.shared pool'.shared := by
  induction hlater with
  | start heq =>
      subst heq
      exact ⟨h, fun j _ => D.refl j _⟩
  | step move _ hnext ih =>
      obtain ⟨hholds, hrely⟩ := ih
      obtain ⟨hholds', hrely'⟩ := hholds.next hstarts hnext
      have hle := length_le_of_next hnext
      exact ⟨hholds', fun j hj =>
        D.trans j _ _ _ (hrely j (Nat.le_trans hle hj)) (hrely' j hj)⟩

end Discipline

end Library
