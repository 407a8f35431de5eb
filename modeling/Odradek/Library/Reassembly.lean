import Mathlib.Init

/-!
Items cut out of a buffer that grows chunk by chunk. A splitter whose verdict
on a buffer stands whatever arrives later takes the same items out of a stream
at every chunking: those of the stream in one piece.
-/

namespace Library.Reassembly

variable {α β ε : Type}

/-- An item off the front and what is left, `none` for want of more, or a fault. -/
abbrev Splitter (ε α β : Type) := List α → Except ε (Option (β × List α))

/-- A verdict stands, and an item takes something off the buffer. -/
structure Stable (split : Splitter ε α β) : Prop where
  nothing : split [] = .ok none
  shrinks : ∀ {buf rest item}, split buf = .ok (some (item, rest)) → rest.length < buf.length
  item : ∀ {buf rest item}, split buf = .ok (some (item, rest)) →
    ∀ more, split (buf ++ more) = .ok (some (item, rest ++ more))
  fault : ∀ {buf e}, split buf = .error e → ∀ more, split (buf ++ more) = .error e

/-- The items so far, and the buffer or the fault that ended it. -/
structure Received (ε α β : Type) where
  items : List β
  rest : Except ε (List α)

def Received.after (items : List β) (received : Received ε α β) : Received ε α β :=
  { received with items := items ++ received.items }

def drainRounds (split : Splitter ε α β) : (rounds : Nat) → List α → Received ε α β
  | 0, buf => ⟨[], .ok buf⟩
  | rounds + 1, buf =>
    match split buf with
    | .error e => ⟨[], .error e⟩
    | .ok none => ⟨[], .ok buf⟩
    | .ok (some (item, rest)) => (drainRounds split rounds rest).after [item]

def drain (split : Splitter ε α β) (buf : List α) : Received ε α β :=
  drainRounds split (buf.length + 1) buf

def arrive (split : Splitter ε α β) (received : Received ε α β) (chunk : List α) :
    Received ε α β :=
  match received.rest with
  | .error _ => received
  | .ok buf => (drain split (buf ++ chunk)).after received.items

def receive (split : Splitter ε α β) (chunks : List (List α)) : Received ε α β :=
  chunks.foldl (arrive split) ⟨[], .ok []⟩

variable {split : Splitter ε α β}

theorem Received.after_after (items more : List β) (received : Received ε α β) :
    (received.after more).after items = received.after (items ++ more) := by
  simp only [Received.after, List.append_assoc]

theorem Received.after_nil (received : Received ε α β) : received.after [] = received := rfl

/-- More rounds than there is buffer change nothing. -/
theorem drainRounds_enough (hs : Stable split) (m n : Nat) (buf : List α) (hm : buf.length < m)
    (hn : buf.length < n) : drainRounds split m buf = drainRounds split n buf := by
  induction m generalizing n buf with
  | zero => exact absurd hm (Nat.not_lt_zero _)
  | succ m ih =>
      obtain ⟨n, rfl⟩ := Nat.exists_eq_add_one.mpr (Nat.zero_lt_of_lt hn)
      rw [drainRounds, drainRounds]
      cases hsplit : split buf with
      | error e => rfl
      | ok found =>
          cases found with
          | none => rfl
          | some step =>
              obtain ⟨item, rest⟩ := step
              have hlt := hs.shrinks hsplit
              simp only
              rw [ih n rest (by omega) (by omega)]

section Drain

variable {buf rest : List α} {item : β} {e : ε}

theorem drain_none (h : split buf = .ok none) : drain split buf = ⟨[], .ok buf⟩ := by
  rw [drain, drainRounds, h]

theorem drain_fault (h : split buf = .error e) : drain split buf = ⟨[], .error e⟩ := by
  rw [drain, drainRounds, h]

theorem drain_item (hs : Stable split) (h : split buf = .ok (some (item, rest))) :
    drain split buf = (drain split rest).after [item] := by
  have hlt := hs.shrinks h
  rw [drain, drainRounds, h]
  simp only
  rw [drainRounds_enough hs buf.length (rest.length + 1) rest hlt (Nat.lt_succ_self _), ← drain]

end Drain

theorem arrive_after (items : List β) (received : Received ε α β) (chunk : List α) :
    arrive split (received.after items) chunk = (arrive split received chunk).after items := by
  obtain ⟨more, rest⟩ := received
  cases rest with
  | error e => rfl
  | ok buf =>
      simp only [arrive, Received.after]
      rw [List.append_assoc]

/-- What is drained before a chunk need not be drained again. -/
theorem arrive_drain (hs : Stable split) (buf chunk : List α) :
    arrive split (drain split buf) chunk = drain split (buf ++ chunk) := by
  induction hlen : buf.length using Nat.strongRecOn generalizing buf with
  | ind n ih =>
      cases hsplit : split buf with
      | error e =>
          rw [drain_fault hsplit, drain_fault (hs.fault hsplit chunk)]
          rfl
      | ok found =>
          cases found with
          | none =>
              rw [drain_none hsplit]
              exact Received.after_nil _
          | some step =>
              obtain ⟨item, rest⟩ := step
              have hlt := hs.shrinks hsplit
              rw [drain_item hs hsplit, drain_item hs (hs.item hsplit chunk), arrive_after,
                ih rest.length (by omega) rest rfl]

/-- Every chunking of a stream gives what the whole of it gives. -/
theorem receive_eq (hs : Stable split) (chunks : List (List α)) :
    receive split chunks = drain split chunks.flatten := by
  have hfold : ∀ (buf : List α), chunks.foldl (arrive split) (drain split buf) =
      drain split (buf ++ chunks.flatten) := by
    induction chunks with
    | nil =>
        intro buf
        rw [List.flatten_nil, List.append_nil]
        rfl
    | cons chunk chunks ih =>
        intro buf
        rw [List.foldl_cons, arrive_drain hs, ih, List.flatten_cons, List.append_assoc]
  have hstart := hfold []
  rwa [drain_none hs.nothing, List.nil_append] at hstart

/-- A stream that starts with the bytes of items, one after the other. -/
theorem drain_items (hs : Stable split) (bytes : β → List α) (items : List β) (tail : List α)
    (h : ∀ item ∈ items, ∀ rest, split (bytes item ++ rest) = .ok (some (item, rest))) :
    drain split (items.flatMap bytes ++ tail) = (drain split tail).after items := by
  induction items with
  | nil => exact (Received.after_nil _).symm
  | cons item items ih =>
      have hitem := h item List.mem_cons_self (items.flatMap bytes ++ tail)
      rw [List.flatMap_cons, List.append_assoc, drain_item hs hitem,
        ih fun other hmem => h other (List.mem_cons_of_mem _ hmem), Received.after_after,
        List.singleton_append]

end Library.Reassembly
