import Odradek.Library.Pool

/-!
A machine with a record of its moves beside its state. The record sees every
move and changes none, so every run has one.
-/

namespace Library

variable {σ Op Choice Call Weather H : Type} {Res : Op → Type}

/-- What each kind of move adds, judged by the state it is made in. -/
structure Recorder (σ Op Choice Weather H : Type) where
  exec : Nat → Op → Choice → σ → H → H
  drop : Nat → Op → σ → H → H
  idle : Weather → σ → H → H

namespace Machine

def recorded (M : Machine σ Op Res Choice Call Weather) (R : Recorder σ Op Choice Weather H) :
    Machine (σ × H) Op Res Choice Call Weather :=
  { exec := fun i op c s =>
      (M.exec i op c s.1).map fun out => (out.1, (out.2, R.exec i op c s.1 s.2))
    drop := fun i op s => (M.drop i op s.1).map fun t => (t, R.drop i op s.1 s.2)
    idle := fun e s => (M.idle e s.1).map fun t => (t, R.idle e s.1 s.2)
    begin := fun i call s => (M.begin i call s.1).map fun t => (t, s.2)
    body := M.body }

variable {M : Machine σ Op Res Choice Call Weather} {R : Recorder σ Op Choice Weather H}

section Moves

variable {i : Nat} {op : Op} {c : Choice} {e : Weather} {r : Res op} {s t : σ × H}

theorem recorded_exec (h : (M.recorded R).exec i op c s = some (r, t)) :
    M.exec i op c s.1 = some (r, t.1) ∧ t.2 = R.exec i op c s.1 s.2 := by
  obtain ⟨_, hexec, heq⟩ := Option.map_eq_some_iff.mp h
  cases heq
  exact ⟨hexec, rfl⟩

theorem recorded_drop (h : (M.recorded R).drop i op s = some t) :
    M.drop i op s.1 = some t.1 ∧ t.2 = R.drop i op s.1 s.2 := by
  obtain ⟨_, hdrop, heq⟩ := Option.map_eq_some_iff.mp h
  cases heq
  exact ⟨hdrop, rfl⟩

theorem recorded_idle (h : (M.recorded R).idle e s = some t) :
    M.idle e s.1 = some t.1 ∧ t.2 = R.idle e s.1 s.2 := by
  obtain ⟨_, hidle, heq⟩ := Option.map_eq_some_iff.mp h
  cases heq
  exact ⟨hidle, rfl⟩

theorem recorded_begin {call : Call} (h : (M.recorded R).begin i call s = some t) :
    M.begin i call s.1 = some t.1 ∧ t.2 = s.2 := by
  obtain ⟨_, hbegin, heq⟩ := Option.map_eq_some_iff.mp h
  cases heq
  exact ⟨hbegin, rfl⟩

end Moves

/-- The record beside a pool. -/
def Recording (pool : Pool σ Op Res) (h : H) : Pool (σ × H) Op Res :=
  { shared := (pool.shared, h), tasks := pool.tasks }

/-- The recording moves as the pool does. -/
theorem recorded_next {pool pool' : Pool σ Op Res} {move : Move Choice Call Weather} (h : H)
    (hnext : M.next pool move = some pool') :
    ∃ h', (M.recorded R).next (Recording pool h) move = some (Recording pool' h') := by
  cases move with
  | start call =>
      obtain ⟨s, hbegin, rfl⟩ := Option.map_eq_some_iff.mp hnext
      refine ⟨h, Option.map_eq_some_iff.mpr ⟨(s, h), ?_, rfl⟩⟩
      exact Option.map_eq_some_iff.mpr ⟨s, hbegin, rfl⟩
  | act i c =>
      simp only [next] at hnext
      split at hnext
      next op rest htask =>
          obtain ⟨⟨r, s⟩, hexec, rfl⟩ := Option.map_eq_some_iff.mp hnext
          refine ⟨R.exec i op c pool.shared h, ?_⟩
          simp only [next, Recording, htask]
          exact Option.map_eq_some_iff.mpr
            ⟨_, Option.map_eq_some_iff.mpr ⟨(r, s), hexec, rfl⟩, rfl⟩
      next => cases hnext
  | drop i =>
      simp only [next] at hnext
      split at hnext
      next op rest htask =>
          obtain ⟨s, hdrop, rfl⟩ := Option.map_eq_some_iff.mp hnext
          refine ⟨R.drop i op pool.shared h, ?_⟩
          simp only [next, Recording, htask]
          exact Option.map_eq_some_iff.mpr ⟨_, Option.map_eq_some_iff.mpr ⟨s, hdrop, rfl⟩, rfl⟩
      next => cases hnext
  | idle e =>
      obtain ⟨s, hidle, rfl⟩ := Option.map_eq_some_iff.mp hnext
      refine ⟨R.idle e pool.shared h, Option.map_eq_some_iff.mpr ⟨_, ?_, rfl⟩⟩
      exact Option.map_eq_some_iff.mpr ⟨s, hidle, rfl⟩

/-- Every run has its record. -/
theorem Reaches.recorded {init : σ → Prop} {pool : Pool σ Op Res}
    (R : Recorder σ Op Choice Weather H)
    (h₀ : H) (h : M.Reaches init pool) :
    ∃ h, (M.recorded R).Reaches (fun s => init s.1 ∧ s.2 = h₀) (Recording pool h) := by
  induction h with
  | start hs =>
      obtain ⟨s, hs, rfl⟩ := hs
      exact ⟨h₀, .start ⟨(s, h₀), ⟨hs, rfl⟩, rfl⟩⟩
  | step move _ hnext ih =>
      obtain ⟨h, hreach⟩ := ih
      obtain ⟨h', hnext'⟩ := recorded_next (R := R) h hnext
      exact ⟨h', .step move hreach hnext'⟩

end Machine

end Library
