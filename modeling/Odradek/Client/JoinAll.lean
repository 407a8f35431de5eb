import Mathlib.Data.List.Induction

/-!
Running several futures on the caller's task (`join.rs`). A future is what polling
does with it and with what futures share, the world: `join_all` is a future itself,
a pass over its slots at each poll. Whoever polls it may find the world changed in
any way since the poll before, and polls it until it is ready.
-/

namespace Odradek.Client

variable {F σ α : Type}

inductive Poll (α : Type)
  | ready (value : α)
  | pending
  deriving DecidableEq

def Poll.isReady : Poll α → Bool
  | .ready _ => true
  | .pending => false

abbrev Poller (F σ α : Type) := F → σ → Poll α × F × σ

structure JoinAll (F α : Type) where
  running : List (Option F)
  done : List (Option α)

namespace JoinAll

def start (futures : List F) : JoinAll F α :=
  { running := futures.map some, done := (futures.map some).map fun _ => none }

/-- The body of the loop: a future that is ready leaves its slot. -/
def turn (poll : Poller F σ α) : Option F → Option α → (allDone : Bool) → σ →
    Bool × Option F × Option α × σ
  | none, out, allDone, s => (allDone, none, out, s)
  | some future, out, allDone, s =>
    match poll future s with
    | (.ready value, _, s) => (allDone, none, some value, s)
    | (.pending, future, s) => (false, some future, out, s)

/-- The loop over `running.iter_mut().zip(done.iter_mut())`. -/
def pass (poll : Poller F σ α) : List (Option F) → List (Option α) → (allDone : Bool) → σ →
    Bool × JoinAll F α × σ
  | slot :: running, out :: done, allDone, s =>
    let (allDone, slot, out, s) := turn poll slot out allDone s
    let (allDone, rest, s) := pass poll running done allDone s
    (allDone, { running := slot :: rest.running, done := out :: rest.done }, s)
  | running, done, allDone, s => (allDone, { running, done }, s)

/-- What `done` is unwrapped into; an empty slot there is a panic. -/
def collect : List (Option α) → Except String (List α)
  | [] => .ok []
  | none :: _ => .error "join_all returns only once every future is done"
  | some value :: done => (collect done).map (value :: ·)

def poll (poller : Poller F σ α) : Poller (JoinAll F α) σ (Except String (List α)) :=
  fun join s =>
    let (allDone, join, s) := pass poller join.running join.done true s
    (if allDone then .ready (collect join.done) else .pending, join, s)

end JoinAll

/-- A task that polls a future each time it is woken, the world having changed by then,
until the future is ready. -/
def drive (poll : Poller F σ α) (future : F) (s : σ) : List (σ → σ) → Option α × F × σ
  | [] => (none, future, s)
  | wake :: wakes =>
    match poll future (wake s) with
    | (.ready value, future, s) => (some value, future, s)
    | (.pending, future, s) => drive poll future s wakes

/-- One more wake of the task, which does nothing once the future is ready. -/
def again (poll : Poller F σ α) (wake : σ → σ) : Option α × F × σ → Option α × F × σ
  | (none, future, s) => drive poll future s [wake]
  | (some value, future, s) => (some value, future, s)

/-- Which future was polled and what it answered, oldest first. -/
abbrev PollLog (α : Type) := List (Nat × Poll α)

def PollLog.answer (log : PollLog α) (i : Nat) : Option α :=
  log.findSome? fun e => match e with
    | (j, .ready value) => if j = i then some value else none
    | (_, .pending) => none

/-- The same futures, numbered, with a record of their polls. -/
def Poller.counted (poll : Poller F σ α) : Poller (Nat × F) (σ × PollLog α) α :=
  fun (i, future) (s, log) =>
    let (answer, future, s) := poll future s
    (answer, (i, future), s, log ++ [(i, answer)])

/-- A change of the world that leaves the record alone. -/
def beside (wake : σ → σ) : σ × PollLog α → σ × PollLog α
  | (s, log) => (wake s, log)

/-- `join_all` of numbered futures, woken as the futures themselves would be. -/
def counted (poll : Poller F σ α) (futures : List F) (s : σ) (wakes : List (σ → σ)) :
    Option (Except String (List α)) × JoinAll (Nat × F) α × σ × PollLog α :=
  drive (JoinAll.poll poll.counted) (.start (futures.mapIdx fun i future => (i, future)))
    (s, []) (wakes.map beside)

def polls (poll : Poller F σ α) (futures : List F) (s : σ) (wakes : List (σ → σ)) : PollLog α :=
  (counted poll futures s wakes).2.2.2

namespace JoinAll

section Slots

variable {poll : Poller F σ α} {log more : PollLog α} {i k : Nat} {s : σ} {allDone : Bool}

theorem answer_append : (log ++ more).answer i = (log.answer i).or (more.answer i) :=
  List.findSome?_append

/-- What is recorded of others is no answer of this one. -/
theorem answer_append_other (h : ∀ e ∈ more, e.1 ≠ i) : (log ++ more).answer i = log.answer i := by
  have hnone : more.answer i = none := by
    refine List.findSome?_eq_none_iff.mpr fun e he => ?_
    match e with
    | (j, .ready value) => exact if_neg (h _ he)
    | (_, .pending) => rfl
  rw [answer_append, hnone, Option.or_none]

/-- A slot is empty when its future has answered, and `out` is that answer. -/
def Slot (log : PollLog α) (i : Nat) : Option (Nat × F) → Option α → Prop
  | some (j, _), out => j = i ∧ out = none ∧ log.answer i = none
  | none, out => out = log.answer i ∧ (log.answer i).isSome

theorem Slot.append {slot : Option (Nat × F)} {out : Option α} (h : Slot log i slot out)
    (hmore : ∀ e ∈ more, e.1 ≠ i) : Slot (log ++ more) i slot out := by
  have hsame : (log ++ more).answer i = log.answer i := answer_append_other hmore
  cases slot with
  | none => simpa only [Slot, hsame] using h
  | some future => simpa only [Slot, hsame] using h

/-- The slots from the `k`th on. -/
def Slots (log : PollLog α) : Nat → List (Option (Nat × F)) → List (Option α) → Prop
  | _, [], [] => True
  | k, slot :: running, out :: done => Slot log k slot out ∧ Slots log (k + 1) running done
  | _, _, _ => False

theorem Slots.append {running : List (Option (Nat × F))} {done : List (Option α)}
    (h : Slots log k running done) (hmore : ∀ e ∈ more, e.1 < k) :
    Slots (log ++ more) k running done := by
  induction running generalizing k done with
  | nil => cases done with
    | nil => trivial
    | cons out done => exact h
  | cons slot running ih => cases done with
    | nil => exact h
    | cons out done =>
        refine ⟨h.1.append fun e he => Nat.ne_of_lt (hmore e he), ih h.2 fun e he => ?_⟩
        exact Nat.lt_succ_of_lt (hmore e he)

theorem Slot.isNone_eq {slot : Option (Nat × F)} {out : Option α} (h : Slot log i slot out) :
    slot.isNone = (log.answer i).isSome := by
  cases slot with
  | none => exact h.2.symm
  | some future =>
      rw [h.2.2]
      rfl

theorem Slots.start (futures : List F) :
    Slots ([] : PollLog α) k ((futures.mapIdx fun i future => (k + i, future)).map some)
      (((futures.mapIdx fun i future => (k + i, future)).map some).map fun _ => none) := by
  induction futures generalizing k with
  | nil => trivial
  | cons future futures ih =>
      have hrest : (fun i future => (k + 1 + i, future)) =
          ((fun i future => (k + i, future)) ∘ (· + 1) : Nat → F → Nat × F) := by
        funext i future
        show (k + 1 + i, future) = (k + (i + 1), future)
        rw [Nat.add_assoc, Nat.add_comm 1 i]
      have hlater := ih (k := k + 1)
      rw [hrest] at hlater
      rw [List.mapIdx_cons]
      exact ⟨⟨rfl, rfl, rfl⟩, hlater⟩

/-- A turn polls the future that is left in its slot. -/
theorem turn_counted (poll : Poller F σ α) (s : σ) (allDone : Bool) {slot : Option (Nat × F)}
    {out : Option α} (h : Slot log k slot out) :
    ∃ slot' out' s' polled, turn poll.counted slot out allDone (s, log) =
        (allDone && slot'.isNone, slot', out', s', log ++ polled) ∧
      polled.map Prod.fst = (if (log.answer k).isNone then [k] else []) ∧
      Slot (log ++ polled) k slot' out' := by
  cases slot with
  | none =>
      obtain ⟨value, hvalue⟩ := Option.isSome_iff_exists.mp h.2
      refine ⟨none, out, s, [], ?_, ?_, ?_⟩
      · simp only [turn, Option.isNone_none, Bool.and_true, List.append_nil]
      · rw [hvalue]
        rfl
      · rw [List.append_nil]
        exact h
  | some numbered =>
      obtain ⟨j, future⟩ := numbered
      obtain ⟨rfl, rfl, hnone⟩ := h
      cases hpoll : poll future s with
      | mk answer rest =>
          obtain ⟨future', s'⟩ := rest
          cases answer with
          | ready value =>
              refine ⟨none, some value, s', [(j, .ready value)], ?_, ?_, ?_⟩
              · simp only [turn, Poller.counted, hpoll, Option.isNone_none, Bool.and_true]
              · rw [hnone]
                rfl
              · have hanswer : PollLog.answer (log ++ [(j, .ready value)]) j = some value := by
                  rw [answer_append, hnone, Option.none_or]
                  simp [PollLog.answer]
                exact ⟨hanswer.symm, by rw [hanswer]; rfl⟩
          | pending =>
              refine ⟨some (j, future'), none, s', [(j, .pending)], ?_, ?_, rfl, rfl, ?_⟩
              · simp only [turn, Poller.counted, hpoll, Option.isNone_some, Bool.and_false]
              · rw [hnone]
                rfl
              · rw [answer_append, hnone]
                rfl

/-- The futures that a pass from the `k`th slot on has to poll. -/
def unanswered (log : PollLog α) (k n : Nat) : List Nat :=
  (List.range' k n).filter fun i => (log.answer i).isNone

/-- A pass polls each running future once, and keeps what answered. -/
theorem pass_counted (poll : Poller F σ α) (s : σ) (allDone : Bool)
    {running : List (Option (Nat × F))} {done : List (Option α)} (h : Slots log k running done) :
    ∃ join s' polled, pass poll.counted running done allDone (s, log) =
        (allDone && join.running.all Option.isNone, join, s', log ++ polled) ∧
      polled.map Prod.fst = unanswered log k running.length ∧
      Slots (log ++ polled) k join.running join.done ∧ join.running.length = running.length := by
  induction running generalizing k done allDone s log with
  | nil => cases done with
    | nil =>
        refine ⟨⟨[], []⟩, s, [], ?_, rfl, trivial, rfl⟩
        simp only [pass, List.all_nil, Bool.and_true, List.append_nil]
    | cons out done => exact h.elim
  | cons slot running ih => cases done with
    | nil => exact h.elim
    | cons out done =>
        obtain ⟨hslot, hslots⟩ := h
        obtain ⟨slot', out', s', first, hturn, hfirst, hslot'⟩ :=
          turn_counted poll s allDone hslot
        have honly : ∀ e ∈ first, e.1 = k := fun e he => by
          have hmem := List.mem_map_of_mem (f := Prod.fst) he
          rw [hfirst] at hmem
          split at hmem
          · exact List.mem_singleton.mp hmem
          · cases hmem
        have hbelow : ∀ e ∈ first, e.1 < k + 1 := fun e he => (honly e he).symm ▸ Nat.lt_succ_self k
        obtain ⟨join, s'', rest, hpass, hrest, hslots', hlength⟩ :=
          ih s' (allDone && slot'.isNone) (hslots.append hbelow)
        have habove : ∀ e ∈ rest, k < e.1 := fun e he => by
          have hmem := List.mem_map_of_mem (f := Prod.fst) he
          rw [hrest, unanswered, List.mem_filter, List.mem_range'_1] at hmem
          exact hmem.1.1
        have hsame : unanswered (log ++ first) (k + 1) running.length =
            unanswered log (k + 1) running.length := by
          refine List.filter_congr fun i hi => ?_
          have hlow := (List.mem_range'_1.mp hi).1
          rw [answer_append_other fun e he => by rw [honly e he]; omega]
        refine ⟨⟨slot' :: join.running, out' :: join.done⟩, s'', first ++ rest, ?_, ?_, ?_, ?_⟩
        · simp only [pass, hturn, hpass, List.all_cons, Bool.and_assoc, List.append_assoc]
        · rw [List.map_append, hfirst, hrest, hsame]
          simp only [unanswered, List.length_cons, List.range'_succ, List.filter_cons]
          split <;> rfl
        · rw [← List.append_assoc]
          exact ⟨hslot'.append fun e he => Nat.ne_of_gt (habove e he), hslots'⟩
        · exact congrArg Nat.succ hlength

/-- When every slot is full the outputs are the answers, in order. -/
theorem collect_slots {running : List (Option (Nat × F))} {done : List (Option α)}
    (h : Slots log k running done) (hempty : running.all Option.isNone) :
    ∃ outputs, collect done = .ok outputs ∧
      outputs.map some = (List.range' k running.length).map log.answer := by
  induction running generalizing k done with
  | nil => cases done with
    | nil => exact ⟨[], rfl, rfl⟩
    | cons out done => exact h.elim
  | cons slot running ih => cases done with
    | nil => exact h.elim
    | cons out done =>
        rw [List.all_cons, Bool.and_eq_true] at hempty
        obtain ⟨outputs, hcollect, houtputs⟩ := ih h.2 hempty.2
        obtain rfl := Option.isNone_iff_eq_none.mp hempty.1
        obtain ⟨hout, hsome⟩ := h.1
        obtain ⟨value, hvalue⟩ := Option.isSome_iff_exists.mp hsome
        rw [hvalue] at hout
        refine ⟨value :: outputs, ?_, ?_⟩
        · rw [hout, collect, hcollect]
          rfl
        · rw [List.length_cons, List.range'_succ, List.map_cons, List.map_cons, houtputs, hvalue]

/-- All slots are empty exactly when all futures have answered. -/
theorem Slots.empty_iff {running : List (Option (Nat × F))} {done : List (Option α)}
    (h : Slots log k running done) :
    running.all Option.isNone ↔ ∀ i, k ≤ i → i < k + running.length → (log.answer i).isSome := by
  induction running generalizing k done with
  | nil => exact iff_of_true rfl fun i hlow hhigh => absurd hhigh (Nat.not_lt.mpr hlow)
  | cons slot running ih => cases done with
    | nil => exact h.elim
    | cons out done =>
        rw [List.all_cons, Bool.and_eq_true, ih h.2, h.1.isNone_eq]
        constructor
        · intro ⟨hfirst, hrest⟩ i hlow hhigh
          obtain rfl | hlow := Nat.eq_or_lt_of_le hlow
          · exact hfirst
          · exact hrest i hlow (by rw [List.length_cons] at hhigh; omega)
        · intro hall
          refine ⟨hall k (Nat.le_refl k) (by rw [List.length_cons]; omega), fun i hlow hhigh => ?_⟩
          exact hall i (by omega) (by rw [List.length_cons]; omega)

end Slots

section Polls

variable {poller : Poller F σ α} {log polled : PollLog α} {n : Nat} {s : σ}
  {join : JoinAll (Nat × F) α}

/-- A `join_all` of `n` futures that have answered what the log holds. -/
structure Kept (n : Nat) (log : PollLog α) (join : JoinAll (Nat × F) α) : Prop where
  slots : Slots log 0 join.running join.done
  length : join.running.length = n

theorem kept_start (futures : List F) :
    Kept futures.length ([] : PollLog α) (.start (futures.mapIdx fun i future => (i, future))) := by
  have hslots := Slots.start (α := α) (k := 0) futures
  simp only [Nat.zero_add] at hslots
  exact ⟨hslots, by rw [start, List.length_map, List.length_mapIdx]⟩

/-- One poll: every future left is polled once, and the last of them completes it. -/
theorem poll_counted (poller : Poller F σ α) (s : σ) (h : Kept n log join) :
    ∃ answer join' s' polled, poll poller.counted join (s, log) =
        (answer, join', s', log ++ polled) ∧
      polled.map Prod.fst = unanswered log 0 n ∧ Kept n (log ++ polled) join' ∧
      (answer = .pending ∧ ¬ (∀ i, i < n → ((log ++ polled).answer i).isSome) ∨
        ∃ outputs, answer = .ready (.ok outputs) ∧
          outputs.map some = (List.range n).map (log ++ polled).answer) := by
  obtain ⟨join', s', polled, hpass, hpolled, hslots, hlength⟩ :=
    pass_counted poller s true h.slots
  rw [h.length] at hpolled hlength
  have hempty := hslots.empty_iff
  simp only [hlength, Nat.zero_add, Nat.zero_le, true_implies] at hempty
  refine ⟨_, join', s', polled, by rw [poll, hpass], hpolled, ⟨hslots, hlength⟩, ?_⟩
  rw [Bool.true_and]
  split
  case isTrue hall =>
    obtain ⟨outputs, hcollect, houtputs⟩ := collect_slots hslots hall
    rw [hlength, ← List.range_eq_range'] at houtputs
    exact .inr ⟨outputs, by rw [hcollect], houtputs⟩
  case isFalse hleft => exact .inl ⟨rfl, fun hall => hleft (hempty.mpr hall)⟩

end Polls

end JoinAll

section Logs

variable {log polled : PollLog α} {i : Nat} {a : α}

/-- No future is polled after it was ready. -/
def PollLog.Once (log : PollLog α) : Prop :=
  log.Pairwise fun earlier later => earlier.2.isReady → later.1 ≠ earlier.1

theorem PollLog.answer_cons (e : Nat × Poll α) :
    PollLog.answer (e :: log) i = (PollLog.answer [e] i).or (log.answer i) := by
  rw [← JoinAll.answer_append, List.singleton_append]

theorem PollLog.answer_singleton {e : Nat × Poll α} :
    PollLog.answer [e] i = some a ↔ e = (i, .ready a) := by
  match e with
  | (j, .ready value) =>
      simp only [PollLog.answer, List.findSome?_cons, List.findSome?_nil]
      by_cases hi : j = i
      · simp [hi]
      · simp [hi]
  | (j, .pending) => simp [PollLog.answer]

theorem PollLog.mem_of_answer (h : log.answer i = some a) : (i, .ready a) ∈ log := by
  induction log with
  | nil => cases h
  | cons e log ih =>
      rw [answer_cons, Option.or_eq_some_iff] at h
      obtain h | ⟨_, h⟩ := h
      · exact answer_singleton.mp h ▸ List.mem_cons_self
      · exact List.mem_cons_of_mem _ (ih h)

theorem PollLog.answer_isSome (h : (i, .ready a) ∈ log) : (log.answer i).isSome := by
  induction log with
  | nil => cases h
  | cons e log ih =>
      rw [answer_cons, Option.isSome_or, Bool.or_eq_true]
      obtain rfl | h := List.mem_cons.mp h
      · rw [answer_singleton.mpr rfl]
        exact .inl rfl
      · exact .inr (ih h)

/-- A future that is not polled again has one answer. -/
theorem PollLog.Once.answer_iff (honce : log.Once) :
    log.answer i = some a ↔ (i, .ready a) ∈ log := by
  refine ⟨mem_of_answer, fun h => ?_⟩
  induction log with
  | nil => cases h
  | cons e log ih =>
      obtain ⟨hfirst, hrest⟩ := List.pairwise_cons.mp honce
      rw [answer_cons]
      obtain rfl | hmem := List.mem_cons.mp h
      · rw [answer_singleton.mpr rfl, Option.some_or]
      · cases hanswer : PollLog.answer [e] i with
        | none => exact ih hrest hmem
        | some b =>
            obtain rfl := answer_singleton.mp hanswer
            exact (hfirst _ hmem rfl rfl).elim

theorem PollLog.isSome_iff : (log.answer i).isSome ↔ ∃ a, (i, .ready a) ∈ log := by
  rw [Option.isSome_iff_exists]
  constructor
  · intro ⟨a, ha⟩
    exact ⟨a, mem_of_answer ha⟩
  · intro ⟨a, ha⟩
    exact Option.isSome_iff_exists.mp (answer_isSome ha)

/-- A pass over the unanswered polls none that was ready. -/
theorem PollLog.Once.append {n : Nat} (honce : log.Once)
    (hpolled : polled.map Prod.fst = JoinAll.unanswered log 0 n) : (log ++ polled).Once := by
  have hnodup : (polled.map Prod.fst).Nodup := by
    rw [hpolled]
    exact List.Pairwise.filter _ (List.nodup_range' 1)
  refine List.pairwise_append.mpr ⟨honce, ?_, fun earlier he later hl hready heq => ?_⟩
  · refine (List.pairwise_map.mp hnodup).imp fun hne _ heq => hne heq.symm
  · have hmem := List.mem_map_of_mem (f := Prod.fst) hl
    rw [hpolled, JoinAll.unanswered, List.mem_filter, heq] at hmem
    obtain ⟨i, answer⟩ := earlier
    cases answer with
    | pending => cases hready
    | ready a =>
        have hsome := answer_isSome he
        rw [Option.isNone_iff_eq_none.mp hmem.2] at hsome
        cases hsome

end Logs

section Drives

variable {poll : Poller F σ α} {futures : List F} {s : σ} {wakes : List (σ → σ)} {n : Nat}
  {log : PollLog α}

theorem drive_snoc (poll : Poller F σ α) (future : F) (s : σ) (wakes : List (σ → σ))
    (wake : σ → σ) :
    drive poll future s (wakes ++ [wake]) = again poll wake (drive poll future s wakes) := by
  induction wakes generalizing future s with
  | nil => rfl
  | cons first wakes ih =>
      rw [List.cons_append, drive, drive]
      match poll future (first s) with
      | (.ready value, future, s) => rfl
      | (.pending, future, s) => exact ih future s

/-- What holds of `join_all` however often it was woken. -/
structure Joins (n : Nat) (wakes : List (σ → σ)) (result : Option (Except String (List α)))
    (join : JoinAll (Nat × F) α) (log : PollLog α) : Prop where
  once : log.Once
  within : ∀ e ∈ log, e.1 < n
  kept : result = none → JoinAll.Kept n log join
  waits : result = none → wakes ≠ [] → ¬ ∀ i, i < n → (log.answer i).isSome
  ends : ∀ r, result = some r → wakes ≠ [] ∧ ∃ outputs, r = .ok outputs ∧
    outputs.map some = (List.range n).map log.answer

/-- Another wake of a `join_all` that waits. -/
theorem Joins.wake (poll : Poller F σ α) {join : JoinAll (Nat × F) α}
    (h : Joins n wakes none join log) (wake : σ → σ) (s : σ) :
    ∃ result join' s' polled,
      drive (JoinAll.poll poll.counted) join (s, log) [beside wake] =
        (result, join', s', log ++ polled) ∧
      polled.map Prod.fst = JoinAll.unanswered log 0 n ∧
      Joins n (wakes ++ [wake]) result join' (log ++ polled) := by
  obtain ⟨answer, join', s', polled, hpoll, hpolled, hkept, hanswer⟩ :=
    JoinAll.poll_counted poll (wake s) (h.kept rfl)
  have hwoken : wakes ++ [wake] ≠ [] := List.append_ne_nil_of_right_ne_nil _ (List.cons_ne_nil _ _)
  have hwithin : ∀ e ∈ log ++ polled, e.1 < n := by
    refine List.forall_mem_append.mpr ⟨h.within, fun e he => ?_⟩
    have hmem := List.mem_map_of_mem (f := Prod.fst) he
    rw [hpolled, JoinAll.unanswered, ← List.range_eq_range', List.mem_filter] at hmem
    exact List.mem_range.mp hmem.1
  obtain ⟨rfl, hleft⟩ | ⟨outputs, rfl, houtputs⟩ := hanswer
  · refine ⟨none, join', s', polled, by simp only [drive, beside, hpoll], hpolled, ?_⟩
    exact ⟨h.once.append hpolled, hwithin, fun _ => hkept, fun _ _ => hleft, nofun⟩
  · refine ⟨some (.ok outputs), join', s', polled, by simp only [drive, beside, hpoll], hpolled, ?_⟩
    refine ⟨h.once.append hpolled, hwithin, nofun, nofun, ?_⟩
    rintro _ ⟨⟩
    exact ⟨hwoken, outputs, rfl, houtputs⟩

theorem counted_snoc (wake : σ → σ) :
    counted poll futures s (wakes ++ [wake]) =
      again (JoinAll.poll poll.counted) (beside wake) (counted poll futures s wakes) := by
  rw [counted, List.map_append]
  exact drive_snoc _ _ _ (wakes.map beside) (beside wake)

/-- Whatever wakes it, a counted `join_all` joins. -/
theorem counted_joins (poll : Poller F σ α) (futures : List F) (s : σ) (wakes : List (σ → σ)) :
    Joins futures.length wakes (counted poll futures s wakes).1 (counted poll futures s wakes).2.1
      (polls poll futures s wakes) := by
  induction wakes using List.reverseRecOn with
  | nil =>
      exact ⟨List.Pairwise.nil, nofun, fun _ => JoinAll.kept_start futures,
        fun _ h => absurd rfl h, nofun⟩
  | append_singleton wakes wake ih =>
      rw [polls, counted_snoc]
      rw [polls] at ih
      match hcounted : counted poll futures s wakes with
      | (none, join, s', log) =>
          rw [hcounted] at ih
          obtain ⟨result, join', s'', polled, hdrive, _, hjoins⟩ := ih.wake poll wake s'
          simp only [again, hdrive]
          exact hjoins
      | (some result, join, s', log) =>
          rw [hcounted] at ih
          refine ⟨ih.once, ih.within, nofun, nofun, fun r hr => ?_⟩
          exact ⟨List.append_ne_nil_of_right_ne_nil _ (List.cons_ne_nil _ _), (ih.ends r hr).2⟩

theorem length_outputs {outputs : List α} {answer : Nat → Option α}
    (h : outputs.map some = (List.range n).map answer) : outputs.length = n := by
  simpa only [List.length_map, List.length_range] using congrArg List.length h

theorem Joins.outputs_iff {result : Option (Except String (List α))} {i : Nat} {a : α}
    {join : JoinAll (Nat × F) α} {outputs : List α} (h : Joins n wakes result join log)
    (houtputs : outputs.map some = (List.range n).map log.answer) :
    outputs[i]? = some a ↔ (i, .ready a) ∈ log := by
  rw [← h.once.answer_iff]
  have hat := congrArg (·[i]?) houtputs
  simp only [List.getElem?_map] at hat
  by_cases hi : i < n
  · rw [List.getElem?_range hi] at hat
    cases hout : outputs[i]? with
    | none =>
        rw [hout] at hat
        cases hat
    | some b =>
        rw [hout] at hat
        rw [← Option.some.inj hat]
  · have hnone : log.answer i = none := by
      cases hanswer : log.answer i with
      | none => rfl
      | some b => exact absurd (h.within _ (PollLog.mem_of_answer hanswer)) hi
    have hlength := length_outputs houtputs
    rw [hnone, List.getElem?_eq_none (by omega)]

/-- Each wake polls the futures left, in their order. -/
theorem polls_snoc (wake : σ → σ) (h : (counted poll futures s wakes).1 = none) :
    ∃ polled, polls poll futures s (wakes ++ [wake]) = polls poll futures s wakes ++ polled ∧
      polled.map Prod.fst = (List.range futures.length).filter
        fun i => ((polls poll futures s wakes).answer i).isNone := by
  have hjoins := counted_joins poll futures s wakes
  rw [h] at hjoins
  match hcounted : counted poll futures s wakes with
  | (none, join, s', log) =>
      have hlog : polls poll futures s wakes = log := by rw [polls, hcounted]
      rw [hcounted, hlog] at hjoins
      obtain ⟨_, _, _, polled, hdrive, hpolled, _⟩ := hjoins.wake poll wake s'
      refine ⟨polled, ?_, ?_⟩
      · rw [polls, counted_snoc, hcounted, hlog]
        simp only [again, hdrive]
      · rw [hlog, hpolled, List.range_eq_range']
        rfl
  | (some result, _, _, _) =>
      rw [hcounted] at h
      cases h

end Drives

section Uncounted

variable {poll : Poller F σ α}

def JoinAll.uncounted (join : JoinAll (Nat × F) α) : JoinAll F α :=
  { running := join.running.map (Option.map Prod.snd), done := join.done }

/-- Numbering the futures changes nothing but the record. -/
theorem pass_uncounted (poll : Poller F σ α) (running : List (Option (Nat × F)))
    (done : List (Option α)) (allDone : Bool) (s : σ) (log : PollLog α) :
    JoinAll.pass poll (running.map (Option.map Prod.snd)) done allDone s =
      ((JoinAll.pass poll.counted running done allDone (s, log)).1,
        (JoinAll.pass poll.counted running done allDone (s, log)).2.1.uncounted,
        (JoinAll.pass poll.counted running done allDone (s, log)).2.2.1) := by
  induction running generalizing done allDone s log with
  | nil => rfl
  | cons slot running ih => cases done with
    | nil => rfl
    | cons out done => cases slot with
      | none =>
          have hrest := ih done allDone s log
          simp only [JoinAll.pass, JoinAll.turn, List.map_cons, Option.map_none, hrest]
          rfl
      | some numbered =>
          obtain ⟨i, future⟩ := numbered
          cases hpoll : poll future s with
          | mk answer rest =>
              obtain ⟨future', s'⟩ := rest
              cases answer with
              | ready value =>
                  have hrest := ih done allDone s' (log ++ [(i, .ready value)])
                  simp only [JoinAll.pass, JoinAll.turn, Poller.counted, List.map_cons,
                    Option.map_some, hpoll, hrest]
                  rfl
              | pending =>
                  have hrest := ih done false s' (log ++ [(i, .pending)])
                  simp only [JoinAll.pass, JoinAll.turn, Poller.counted, List.map_cons,
                    Option.map_some, hpoll, hrest]
                  rfl

theorem drive_uncounted (poll : Poller F σ α) (join : JoinAll (Nat × F) α) (s : σ)
    (log : PollLog α) (wakes : List (σ → σ)) :
    (drive (JoinAll.poll poll) join.uncounted s wakes).1 =
      (drive (JoinAll.poll poll.counted) join (s, log)
        (wakes.map beside)).1 := by
  induction wakes generalizing join s log with
  | nil => rfl
  | cons wake wakes ih =>
      have hpass := pass_uncounted poll join.running join.done true (wake s) log
      cases hcounted : JoinAll.pass poll.counted join.running join.done true (wake s, log) with
      | mk allDone rest =>
          obtain ⟨join', s', log'⟩ := rest
          rw [hcounted] at hpass
          simp only [drive, List.map_cons, beside, JoinAll.poll, JoinAll.uncounted, hpass, hcounted]
          cases allDone with
          | true => rfl
          | false => exact ih join' s' log'

theorem uncounted_start (futures : List F) :
    (JoinAll.start (futures.mapIdx fun i future => (i, future))).uncounted =
      (JoinAll.start futures : JoinAll F α) := by
  have hrunning : ((futures.mapIdx fun i future => (i, future)).map some).map
      (Option.map Prod.snd) = futures.map some := by
    apply List.ext_getElem?
    intro i
    simp [Option.map_map, Function.comp_def]
  have hdone : ((futures.mapIdx fun i future => (i, future)).map some).map (fun _ => none) =
      (futures.map some).map (fun _ => (none : Option α)) := by
    simp only [List.map_const', List.length_map, List.length_mapIdx]
  rw [JoinAll.uncounted, JoinAll.start, JoinAll.start, hrunning, hdone]

theorem counted_result (futures : List F) (s : σ) (wakes : List (σ → σ)) :
    (counted poll futures s wakes).1 = (drive (JoinAll.poll poll) (.start futures) s wakes).1 := by
  rw [← uncounted_start]
  exact (drive_uncounted poll _ s [] wakes).symm

end Uncounted

/-- However the futures become ready: `join_all` is ready at the poll at which the last
of them is, with their values in their order; none is polled after it was ready, and
each poll of `join_all` polls every other. -/
theorem joinAll_drives (poll : Poller F σ α) (futures : List F) (s : σ) (wakes : List (σ → σ)) :
    ((drive (JoinAll.poll poll) (.start futures) s wakes).1.isSome ↔
      wakes ≠ [] ∧ ∀ i, i < futures.length → ∃ a, (i, .ready a) ∈ polls poll futures s wakes) ∧
    (∀ result, (drive (JoinAll.poll poll) (.start futures) s wakes).1 = some result →
      ∃ outputs, result = .ok outputs ∧ outputs.length = futures.length ∧
        ∀ i a, outputs[i]? = some a ↔ (i, .ready a) ∈ polls poll futures s wakes) ∧
    (polls poll futures s wakes).Pairwise
      (fun earlier later => earlier.2.isReady → later.1 ≠ earlier.1) ∧
    ((drive (JoinAll.poll poll) (.start futures) s wakes).1 = none → ∀ wake, ∃ polled,
      polls poll futures s (wakes ++ [wake]) = polls poll futures s wakes ++ polled ∧
        polled.map Prod.fst = (List.range futures.length).filter
          fun i => ((polls poll futures s wakes).answer i).isNone) := by
  have hjoins := counted_joins poll futures s wakes
  rw [← counted_result]
  refine ⟨?_, fun result hresult => ?_, hjoins.once, fun hnone wake => polls_snoc wake hnone⟩
  · constructor
    · intro hsome
      obtain ⟨result, hresult⟩ := Option.isSome_iff_exists.mp hsome
      obtain ⟨hwoken, outputs, _, houtputs⟩ := hjoins.ends result hresult
      have hlength := length_outputs houtputs
      refine ⟨hwoken, fun i hi => ?_⟩
      exact ⟨outputs[i], (hjoins.outputs_iff houtputs).mp (List.getElem?_eq_getElem (hlength ▸ hi))⟩
    · intro ⟨hwoken, hall⟩
      cases hresult : (counted poll futures s wakes).1 with
      | none =>
          refine absurd (fun i hi => ?_) (hjoins.waits hresult hwoken)
          exact PollLog.isSome_iff.mpr (hall i hi)
      | some result => rfl
  · obtain ⟨_, outputs, rfl, houtputs⟩ := hjoins.ends result hresult
    exact ⟨outputs, rfl, length_outputs houtputs, fun i a => hjoins.outputs_iff houtputs⟩

/-- Futures that are ready at some time on a clock that each wake advances. -/
example :
    polls (fun (due, value) now =>
      (if due ≤ now then .ready value else .pending, (due, value), now))
      [(3, 'a'), (1, 'b'), (2, 'c')] 0 [(· + 1), (· + 1), (· + 1), (· + 1)] =
    [(0, .pending), (1, .ready 'b'), (2, .pending), (0, .pending), (2, .ready 'c'),
      (0, .ready 'a')] := by
  decide

end Odradek.Client
