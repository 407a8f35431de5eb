import Mathlib.Data.List.Induction
import Odradek.Library.Journal

/-!
Numbered items over a channel that may lose a transmission or its acknowledgement.
The receiver acknowledges a range it has already taken without taking it again, and
refuses a gap. A sender that sends under a number what it sent under it before, until
that is acknowledged, has every acknowledged item taken exactly once.
-/

namespace Library

variable {α : Type}

/-- Items numbered from `base` on. -/
structure Span (α : Type) where
  base : Int
  items : List α

def Span.next (a : Span α) : Int := a.base + a.items.length

theorem Span.base_lt_next {a : Span α} (h : a.items ≠ []) : a.base < a.next := by
  have hlength := List.length_pos_of_ne_nil h
  unfold next
  omega

/-- What happens at the sender; `taken` says that the receiver accepted the transmission. -/
inductive Signal (α : Type)
  | sent (span : Span α) (taken : Bool)
  | acked

structure Receiver (α : Type) where
  next : Int
  taken : List (Span α)

namespace Receiver

def start : Receiver α := { next := 0, taken := [] }

def knows (r : Receiver α) (span : Span α) : Bool :=
  r.taken.any fun a => a.base = span.base && a.items.length = span.items.length

def accept (r : Receiver α) (span : Span α) : Option (Receiver α) :=
  if r.knows span then some r
  else if span.base = r.next then some { next := span.next, taken := r.taken ++ [span] }
  else none

def after (r : Receiver α) : Signal α → Option (Receiver α)
  | .sent span taken => if taken then r.accept span else some r
  | .acked => some r

/-- The receiver of a run, if it accepts whatever the run says it accepted. -/
def received (signals : List (Signal α)) : Option (Receiver α) := signals.foldlM after start

theorem received_append {signals : List (Signal α)} {signal : Signal α} :
    received (signals ++ [signal]) = (received signals).bind (·.after signal) := by
  unfold received
  rw [List.foldlM_append]
  cases signals.foldlM after start with
  | none => rfl
  | some r =>
      show (r.after signal).bind (fun r => some r) = r.after signal
      exact Option.bind_fun_some _

end Receiver

/-- The number next in line, the items last sent under it, whether their last transmission
was accepted, and all that was acknowledged. -/
structure Sender (α : Type) where
  base : Int
  owed : Option (List α)
  answered : Bool
  acked : List (Span α)

namespace Sender

def start : Sender α := { base := 0, owed := none, answered := false, acked := [] }

/-- What is acknowledged is what was sent last. -/
def after (s : Sender α) : Signal α → Sender α
  | .sent span taken => { s with base := span.base, owed := some span.items, answered := taken }
  | .acked =>
    match s.owed with
    | none => s
    | some items =>
      { base := s.base + items.length, owed := none, answered := false,
        acked := s.acked ++ [{ base := s.base, items }] }

def position (signals : List (Signal α)) : Sender α := signals.foldl after start

theorem position_append {signals : List (Signal α)} {signal : Signal α} :
    position (signals ++ [signal]) = (position signals).after signal :=
  List.foldl_append

/-- What is sent is numbered as is next in line, and repeats what is owed. -/
def Allows (s : Sender α) : Signal α → Prop
  | .sent span _ => span.base = s.base ∧ span.items ≠ [] ∧
      ∀ items, s.owed = some items → items = span.items
  | .acked => s.answered = true

def Follows (signals : List (Signal α)) : Prop :=
  EachAfter (fun before signal => (position before).Allows signal) signals

/-- The receiver has taken what was acknowledged, and what is owed at most besides. -/
def Held (s : Sender α) (r : Receiver α) : Prop :=
  (r.next = s.base ∧ r.taken = s.acked ∧ s.answered = false) ∨
    ∃ items, s.owed = some items ∧ r.next = s.base + items.length ∧
      r.taken = s.acked ++ [{ base := s.base, items }]

structure Placed (signals : List (Signal α)) (s : Sender α) : Prop where
  nonneg : 0 ≤ s.base
  owed : ∀ items, s.owed = some items → items ≠ []
  acked : ∀ a ∈ s.acked, a.items ≠ [] ∧ a.next ≤ s.base
  ordered : s.acked.Pairwise fun a b => a.next ≤ b.base
  sent : ∀ a taken, .sent a taken ∈ signals → a.items ≠ [] ∧
    (a.next ≤ s.base ∨ a.base = s.base ∧ s.owed = some a.items)
  same : ∀ a b taken taken', .sent a taken ∈ signals → .sent b taken' ∈ signals →
    a.base = b.base → a = b
  held : ∃ r, Receiver.received signals = some r ∧ s.Held r

variable {signals : List (Signal α)} {signal : Signal α} {s : Sender α} {r : Receiver α}
  {a : Span α} {taken : Bool}

theorem Placed.start : Placed ([] : List (Signal α)) .start where
  nonneg := Int.le_refl 0
  owed := nofun
  acked := nofun
  ordered := .nil
  sent := nofun
  same := nofun
  held := ⟨.start, rfl, .inl ⟨rfl, rfl, rfl⟩⟩

/-- What is owed is what was sent under the number before. -/
theorem Placed.eq_of_base (h : Placed signals s) {b : Span α} (hallows : s.Allows (.sent b taken))
    {taken' : Bool} (ha : .sent a taken' ∈ signals) (hbase : a.base = b.base) : a = b := by
  obtain ⟨hnumber, _, howed⟩ := hallows
  obtain ⟨hitems, hbelow | ⟨_, hsame⟩⟩ := h.sent a taken' ha
  · have hlt := Span.base_lt_next hitems
    omega
  · cases a
    cases b
    obtain rfl := howed _ hsame
    cases hbase
    rfl

/-- An allowed transmission is accepted, and held. -/
theorem Held.accept (h : Placed signals s) (hheld : s.Held r) (hallows : s.Allows (.sent a true)) :
    ∃ r', r.accept a = some r' ∧ (s.after (.sent a true)).Held r' := by
  obtain ⟨hbase, hitems, howed⟩ := hallows
  obtain ⟨hnext, htaken, _⟩ | ⟨items, hsent, hnext, htaken⟩ := hheld
  · have hknows : r.knows a = false := by
      refine List.any_eq_false.mpr fun b hb hrange => ?_
      obtain ⟨hfull, hbelow⟩ := h.acked b (htaken ▸ hb)
      have hlt := Span.base_lt_next hfull
      have hsame : b.base = a.base :=
        of_decide_eq_true (Bool.and_eq_true_iff.mp hrange).1
      omega
    refine ⟨{ next := a.next, taken := r.taken ++ [a] }, ?_, .inr ⟨a.items, rfl, rfl, ?_⟩⟩
    · rw [Receiver.accept, hknows, if_neg Bool.false_ne_true, if_pos (hbase.trans hnext.symm)]
    · rw [htaken]
      rfl
  · obtain rfl := howed items hsent
    have hknows : r.knows a = true := by
      refine List.any_eq_true.mpr ⟨{ base := s.base, items := a.items }, ?_, ?_⟩
      · rw [htaken]
        exact List.mem_append_right _ List.mem_cons_self
      · simp only [hbase, decide_true, Bool.and_self]
    refine ⟨r, if_pos hknows, .inr ⟨a.items, rfl, ?_, ?_⟩⟩
    · rw [hnext, ← hbase]
      rfl
    · rw [htaken, ← hbase]
      rfl

theorem Held.kept (hheld : s.Held r) (hallows : s.Allows (.sent a false)) :
    (s.after (.sent a false)).Held r := by
  obtain ⟨hbase, _, howed⟩ := hallows
  obtain ⟨hnext, htaken, _⟩ | ⟨items, hsent, hnext, htaken⟩ := hheld
  · exact .inl ⟨hnext.trans hbase.symm, htaken, rfl⟩
  · obtain rfl := howed items hsent
    refine .inr ⟨a.items, rfl, ?_, ?_⟩
    · rw [hnext, ← hbase]
      rfl
    · rw [htaken, ← hbase]
      rfl

theorem Placed.send (h : Placed signals s) (hallows : s.Allows (.sent a taken)) :
    Placed (signals ++ [.sent a taken]) (s.after (.sent a taken)) where
  nonneg := Int.le_trans h.nonneg (Int.le_of_eq hallows.1.symm)
  owed := by
    rintro items ⟨⟩
    exact hallows.2.1
  acked := fun b hb => by
    obtain ⟨hfull, hbelow⟩ := h.acked b hb
    exact ⟨hfull, Int.le_trans hbelow (Int.le_of_eq hallows.1.symm)⟩
  ordered := h.ordered
  sent := fun b taken' hb => by
    obtain hb | hb := List.mem_append.mp hb
    · obtain ⟨hfull, hbelow | ⟨hbase, howed⟩⟩ := h.sent b taken' hb
      · exact ⟨hfull, .inl (Int.le_trans hbelow (Int.le_of_eq hallows.1.symm))⟩
      · obtain rfl := h.eq_of_base hallows hb (hbase.trans hallows.1.symm)
        exact ⟨hfull, .inr ⟨rfl, rfl⟩⟩
    · cases List.mem_singleton.mp hb
      exact ⟨hallows.2.1, .inr ⟨rfl, rfl⟩⟩
  same := fun b c taken' taken'' hb hc hbase => by
    obtain hb | hb := List.mem_append.mp hb
    · obtain hc | hc := List.mem_append.mp hc
      · exact h.same b c taken' taken'' hb hc hbase
      · cases List.mem_singleton.mp hc
        exact h.eq_of_base hallows hb hbase
    · cases List.mem_singleton.mp hb
      obtain hc | hc := List.mem_append.mp hc
      · exact (h.eq_of_base hallows hc hbase.symm).symm
      · cases List.mem_singleton.mp hc
        rfl
  held := by
    obtain ⟨r, hreceived, hheld⟩ := h.held
    rw [Receiver.received_append, hreceived, Option.bind_some]
    cases taken with
    | true => exact hheld.accept h hallows
    | false => exact ⟨r, rfl, hheld.kept hallows⟩

theorem Placed.acknowledge (h : Placed signals s) (hallows : s.Allows .acked) :
    Placed (signals ++ [.acked]) (s.after .acked) := by
  obtain ⟨r, hreceived, hheld⟩ := h.held
  obtain ⟨_, _, hunanswered⟩ | ⟨items, howed, hnext, htaken⟩ := hheld
  · cases hunanswered.symm.trans hallows
  have hafter : s.after .acked =
      { base := s.base + items.length, owed := none, answered := false,
        acked := s.acked ++ [{ base := s.base, items }] } := by
    simp only [after, howed]
  have hitems := h.owed items howed
  rw [hafter]
  refine ⟨Int.add_nonneg h.nonneg (Int.natCast_nonneg _), nofun, fun b hb => ?_, ?_,
    fun b taken hb => ?_, fun b c taken taken' hb hc => ?_, ?_⟩
  · obtain hb | hb := List.mem_append.mp hb
    · obtain ⟨hfull, hbelow⟩ := h.acked b hb
      refine ⟨hfull, ?_⟩
      dsimp only
      omega
    · cases List.mem_singleton.mp hb
      exact ⟨hitems, Int.le_refl _⟩
  · refine List.pairwise_append.mpr ⟨h.ordered, List.pairwise_singleton _ _, fun b hb c hc => ?_⟩
    cases List.mem_singleton.mp hc
    exact (h.acked b hb).2
  · obtain hb | hb := List.mem_append.mp hb
    · obtain ⟨hfull, hbelow | ⟨hbase, hsame⟩⟩ := h.sent b taken hb
      · refine ⟨hfull, .inl ?_⟩
        dsimp only
        omega
      · cases howed.symm.trans hsame
        refine ⟨hfull, .inl (Int.le_of_eq ?_)⟩
        rw [Span.next, hbase]
    · cases List.mem_singleton.mp hb
  · obtain hb | hb := List.mem_append.mp hb
    · obtain hc | hc := List.mem_append.mp hc
      · exact h.same b c taken taken' hb hc
      · cases List.mem_singleton.mp hc
    · cases List.mem_singleton.mp hb
  · refine ⟨r, ?_, .inl ⟨hnext, htaken, rfl⟩⟩
    rw [Receiver.received_append, hreceived]
    rfl

theorem Placed.next (h : Placed signals s) (hallows : s.Allows signal) :
    Placed (signals ++ [signal]) (s.after signal) := by
  cases signal with
  | sent a taken => exact h.send hallows
  | acked => exact h.acknowledge hallows

theorem Follows.placed (h : Follows signals) : Placed signals (position signals) := by
  induction signals using List.reverseRecOn with
  | nil => exact .start
  | append_singleton signals signal ih =>
      obtain ⟨hbefore, hallows⟩ := EachAfter.of_append h
      rw [position_append]
      exact (ih hbefore).next hallows

/-- What the receiver has of a sender that follows the rules: all that was acknowledged, in
order, and what is owed at most besides. -/
theorem Follows.received (h : Follows signals) :
    ∃ r rest, Receiver.received signals = some r ∧
      r.taken = (position signals).acked ++ rest ∧
      (rest = [] ∨ ∃ items, (position signals).owed = some items ∧
        rest = [{ base := (position signals).base, items }]) ∧
      (∀ a ∈ r.taken, a.items ≠ []) ∧ r.taken.Pairwise fun a b => a.next ≤ b.base := by
  have hplaced := h.placed
  obtain ⟨r, hreceived, hheld⟩ := hplaced.held
  obtain ⟨_, htaken, _⟩ | ⟨items, howed, _, htaken⟩ := hheld
  · refine ⟨r, [], hreceived, by rw [htaken, List.append_nil], .inl rfl, ?_⟩
    rw [htaken]
    exact ⟨fun a ha => (hplaced.acked a ha).1, hplaced.ordered⟩
  · refine ⟨r, _, hreceived, htaken, .inr ⟨items, howed, rfl⟩, ?_⟩
    rw [htaken]
    refine ⟨fun a ha => ?_, ?_⟩
    · obtain ha | ha := List.mem_append.mp ha
      · exact (hplaced.acked a ha).1
      · cases List.mem_singleton.mp ha
        exact hplaced.owed items howed
    refine List.pairwise_append.mpr ⟨hplaced.ordered, List.pairwise_singleton _ _, ?_⟩
    intro a ha b hb
    cases List.mem_singleton.mp hb
    exact (hplaced.acked a ha).2

/-- What follows in numbers is never taken twice. -/
theorem nodup_bases {taken : List (Span α)} (hfull : ∀ a ∈ taken, a.items ≠ [])
    (h : taken.Pairwise fun a b => a.next ≤ b.base) : (taken.map (·.base)).Nodup := by
  refine List.pairwise_map.mpr (h.imp_of_mem fun {a b} ha _ hnext heq => ?_)
  have hlt := Span.base_lt_next (hfull a ha)
  omega

end Sender

end Library
