import Odradek.Library.Decoder
import Odradek.Protocol.Error

/-!
The decode allocation budget (`budget.rs`). Sizes are `usize` values of a
64-bit target and saturate as the source has them. An allocator that refuses a
request the budget approved is not modelled, nor one that grants more.
-/

namespace Odradek.Protocol

open Library Library.Decoder

def satAdd (a b : Nat) : Nat := min (a + b) usizeMax
def satMul (a b : Nat) : Nat := min (a * b) usizeMax

def defaultMaxFrame : Nat := 64 <<< 20

def defaultAllocFactor : Nat := 16
def defaultMinAllocBytes : Nat := 64 <<< 10
def defaultMaxAllocBytes : Nat := 4 * defaultMaxFrame

structure Limits where
  allocFactor : Nat
  minAllocBytes : Nat
  maxAllocBytes : Nat
  deriving DecidableEq

def Limits.default : Limits :=
  { allocFactor := defaultAllocFactor
    minAllocBytes := defaultMinAllocBytes
    maxAllocBytes := defaultMaxAllocBytes }

def Limits.unlimited : Limits :=
  { allocFactor := usizeMax, minAllocBytes := usizeMax, maxAllocBytes := usizeMax }

def Limits.allocBytesFor (limits : Limits) (inputLen : Nat) : Nat :=
  min (max (satMul inputLen limits.allocFactor) limits.minAllocBytes) limits.maxAllocBytes

structure Budget where
  limit : Nat
  used : Nat
  deriving DecidableEq

def Budget.new (maxAllocBytes : Nat) : Budget := { limit := maxAllocBytes, used := 0 }

def Limits.budget (limits : Limits) (inputLen : Nat) : Budget :=
  Budget.new (limits.allocBytesFor inputLen)

def Budget.check (budget : Budget) (wanted : Nat) : Except DecodeError Unit :=
  if budget.limit < wanted then .error (.allocationLimit budget.limit wanted) else .ok ()

/-- `Budget::grow`: both blocks are mapped while the elements move. -/
def Budget.grow (budget : Budget) (oldBytes newBytes : Nat) : Except DecodeError Budget := do
  let peak := satAdd budget.used newBytes
  budget.check peak
  pure { budget with used := peak - oldBytes }

/-- What a decode carries besides its bytes: the budget, and how many elements
it has decoded so far (counted for the proofs, the source does not). -/
structure Ledger where
  budget : Budget
  decoded : Nat
  deriving DecidableEq

abbrev Decode (α : Type) := Decoder Halt Ledger α

def fail {α : Type} (e : DecodeError) : Decode α := throw (.error e)

def failIf (c : Prop) [Decidable c] (e : DecodeError) : Decode Unit :=
  if c then fail e else pure ()

/-- The two effects of a push: a reallocation, and one more element. -/
inductive Charge
  | grow (oldBytes newBytes : Nat)
  | item
  deriving DecidableEq

def Ledger.charge : Charge → Ledger → Except Halt Ledger
  | .grow oldBytes newBytes, ledger =>
    match ledger.budget.grow oldBytes newBytes with
    | .ok budget => .ok { ledger with budget }
    | .error e => .error (.error e)
  | .item, ledger => .ok { ledger with decoded := ledger.decoded + 1 }

/-- A `Vec` whose elements take `elem` bytes each. -/
structure Vec (α : Type) where
  items : List α
  capacity : Nat

def Vec.new {α : Type} (elem : Nat) : Vec α :=
  { items := [], capacity := if elem = 0 then usizeMax else 0 }

def firstCapacity (elem : Nat) : Nat :=
  if elem = 1 then 8 else if elem ≤ 1024 then 4 else 1

def nextCapacity (elem old : Nat) : Nat :=
  if old = 0 then firstCapacity elem else satMul old 2

/-- `Budget::grow_for`. `try_reserve_exact` hands back what was asked for, so
there is nothing to settle. -/
def growFor {α : Type} (elem : Nat) (items : Vec α) : Decode (Vec α) := do
  if elem = 0 then
    pure items
  else
    let target := nextCapacity elem items.capacity
    Decoder.draw (Ledger.charge (.grow (satMul items.capacity elem) (satMul target elem)))
    pure { items with capacity := target }

def push {α : Type} (elem : Nat) (items : Vec α) (value : α) : Decode (Vec α) := do
  let items ← if items.items.length = items.capacity then growFor elem items else pure items
  Decoder.draw (Ledger.charge .item)
  pure { items with items := items.items ++ [value] }

def progress (before after : Nat) : Decode Unit := failIf (before ≤ after) .noProgress

/-- An element decode with the progress check around it. -/
def progressing {α : Type} (item : Decode α) : Decode α := do
  let before ← remaining
  let value ← item
  let after ← remaining
  progress before after
  pure value

def getItems {α : Type} (elem : Nat) (item : Decode α) : (count : Nat) → Vec α → Decode (Vec α)
  | 0, items => pure items
  | count + 1, items => do
    let value ← item
    let items ← push elem items value
    getItems elem item count items

section Growth

/-- The capacity of a `Vec` after `n` pushes. -/
def capacityAfter (elem : Nat) : Nat → Nat
  | 0 => if elem = 0 then usizeMax else 0
  | n + 1 =>
    if n = capacityAfter elem n ∧ elem ≠ 0 then nextCapacity elem n else capacityAfter elem n

/-- What pushing the element after the first `n` charges. -/
def pushCharges (elem n : Nat) : List Charge :=
  (if n = capacityAfter elem n ∧ elem ≠ 0 then
    [.grow (satMul n elem) (satMul (nextCapacity elem n) elem)] else []) ++ [.item]

def Vec.Pushed {α : Type} (elem : Nat) (items : Vec α) : Prop :=
  items.capacity = capacityAfter elem items.items.length

def Vec.append {α : Type} (elem : Nat) (items : Vec α) (value : α) : Vec α :=
  { items := items.items ++ [value], capacity := capacityAfter elem (items.items.length + 1) }

variable {α : Type} {elem : Nat} {items : Vec α}

theorem Vec.Pushed.new : (Vec.new elem : Vec α).Pushed elem := rfl

theorem Vec.Pushed.append (value : α) : (items.append elem value).Pushed elem := by
  simp [Vec.Pushed, Vec.append]

theorem growFor_decodes (items : Vec α) (helem : elem ≠ 0) :
    Decodes Ledger.charge (growFor elem items) []
      { items with capacity := nextCapacity elem items.capacity }
      [.grow (satMul items.capacity elem)
        (satMul (nextCapacity elem items.capacity) elem)] := by
  unfold growFor
  rw [if_neg helem]
  exact Decodes.bind_unread (Decodes.draw fun _ => rfl) .pure

theorem push_decodes (h : items.Pushed elem) (value : α) :
    Decodes Ledger.charge (push elem items value) [] (items.append elem value)
      (pushCharges elem items.items.length) := by
  have count : ∀ v : Vec α, v.items = items.items →
      v.capacity = capacityAfter elem (items.items.length + 1) →
      Decodes Ledger.charge
        (do Decoder.draw (Ledger.charge .item)
            pure ({ v with items := v.items ++ [value] } : Vec α)) []
        (items.append elem value) [.item] := by
    intro v hitems hcap
    rw [← hitems] at hcap
    rw [Vec.append, ← hitems, ← hcap]
    exact Decodes.bind_unread (Decodes.draw fun _ => rfl) .pure
  unfold Vec.Pushed at h
  unfold push pushCharges
  by_cases hfull : items.items.length = items.capacity
  · rw [if_pos hfull]
    by_cases helem : elem = 0
    · rw [if_neg (by simp [helem]), List.nil_append]
      have hskip : Decodes Ledger.charge (growFor elem items) [] items [] :=
        .of_eq_pure fun s => by simp [growFor, helem, Decoder.pure_apply]
      refine hskip.bind_look (count items rfl ?_)
      simp [capacityAfter, helem, h]
    · rw [if_pos ⟨hfull.trans h, helem⟩]
      have hgrow := growFor_decodes items helem
      rw [← hfull] at hgrow
      refine Decodes.bind_unread hgrow (count _ rfl ?_)
      rw [capacityAfter, if_pos ⟨hfull.trans h, helem⟩]
  · have hfull' := fun hc : items.items.length = capacityAfter elem items.items.length ∧
      elem ≠ 0 => hfull (hc.1.trans h.symm)
    rw [if_neg hfull, if_neg hfull', List.nil_append]
    refine Decodes.bind_look .pure (count items rfl ?_)
    rw [capacityAfter, if_neg hfull', h]

/-- What decoding and pushing these elements charges, after `pushed` others. -/
def itemsCharges (elem : Nat) (charges : α → List Charge) : List α → (pushed : Nat) → List Charge
  | [], _ => []
  | a :: as, pushed =>
    charges a ++ (pushCharges elem pushed ++ itemsCharges elem charges as (pushed + 1))

/-- Elements that charge nothing themselves only count. -/
theorem itemsCharges_free {β : Type} {as : List α} {bs : List β} (h : as.length = bs.length)
    (pushed : Nat) :
    itemsCharges elem (fun _ => []) as pushed = itemsCharges elem (fun _ => []) bs pushed := by
  induction as generalizing bs pushed with
  | nil =>
      cases bs with
      | nil => rfl
      | cons b bs => cases h
  | cons a as ih =>
      cases bs with
      | nil => cases h
      | cons b bs => rw [itemsCharges, itemsCharges, ih (Nat.succ.inj h)]

def Vec.extend (elem : Nat) (items : Vec α) (values : List α) : Vec α :=
  { items := items.items ++ values
    capacity := capacityAfter elem (items.items.length + values.length) }

theorem Vec.Pushed.extend_nil (h : items.Pushed elem) : items.extend elem [] = items := by
  unfold Vec.Pushed at h
  simp only [Vec.extend, List.append_nil, List.length_nil, Nat.add_zero, ← h]

theorem Vec.append_extend (value : α) (values : List α) :
    (items.append elem value).extend elem values = items.extend elem (value :: values) := by
  simp only [Vec.extend, Vec.append, List.append_assoc, List.singleton_append, List.length_append,
    List.length_cons, List.length_nil, Nat.zero_add, Nat.add_assoc, Nat.add_comm 1]

theorem getItems_decodes {item : Decode α} {bytes : α → List UInt8} {charges : α → List Charge}
    (values : List α) (items : Vec α) (h : items.Pushed elem)
    (hitem : ∀ a ∈ values, Decodes Ledger.charge item (bytes a) a (charges a)) :
    Decodes Ledger.charge (getItems elem item values.length items) (values.flatMap bytes)
      (items.extend elem values) (itemsCharges elem charges values items.items.length) := by
  induction values generalizing items with
  | nil =>
      rw [h.extend_nil]
      exact .pure
  | cons a as ih =>
      have hrest := ih (items.append elem a) (.append a) fun b hb =>
        hitem b (List.mem_cons_of_mem _ hb)
      rw [Vec.append_extend] at hrest
      have hlen : (items.append elem a).items.length = items.items.length + 1 := by
        simp [Vec.append]
      rw [hlen] at hrest
      exact (hitem a List.mem_cons_self).bind ((push_decodes h a).bind_unread hrest)

theorem progressing_decodes {item : Decode α} {bytes : List UInt8} {a : α} {cs : List Charge}
    (hitem : Decodes Ledger.charge item bytes a cs) (hbytes : bytes ≠ []) :
    Decodes Ledger.charge (progressing item) bytes a cs := by
  intro suffix r
  obtain ⟨hok, herr⟩ := hitem suffix r
  have hlen : suffix.length < (bytes ++ suffix).length := by
    have := List.length_pos_iff.mpr hbytes
    simp only [List.length_append]
    omega
  refine ⟨?_, ?_⟩
  · intro r' hr
    simp only [progressing, bind_apply, remaining, hok r' hr, progress, failIf,
      if_neg (Nat.not_le.mpr hlen), pure_apply]
  · intro e hr
    obtain ⟨t, ht⟩ := herr e hr
    exact ⟨t, by simp only [progressing, bind_apply, remaining, ht]⟩

theorem failIf_neg {c : Prop} [Decidable c] {e : DecodeError} (h : ¬ c) : failIf c e = pure () :=
  if_neg h

end Growth

section Peak

/-- The most bytes ever charged at once, growth transients included, starting
from `used`. -/
def peak (used : Nat) : List Charge → Nat
  | [] => used
  | .item :: cs => peak used cs
  | .grow oldBytes newBytes :: cs =>
    max (used + newBytes) (peak (used + newBytes - oldBytes) cs)

theorem le_peak_grow {used oldBytes newBytes : Nat} {cs : List Charge} :
    used + newBytes ≤ peak used (.grow oldBytes newBytes :: cs) :=
  Nat.le_max_left _ _

theorem charge_grow_ok {ledger : Ledger} {oldBytes newBytes : Nat}
    (h : satAdd ledger.budget.used newBytes ≤ ledger.budget.limit) :
    Ledger.charge (.grow oldBytes newBytes) ledger = .ok { ledger with budget :=
      { ledger.budget with used := satAdd ledger.budget.used newBytes - oldBytes } } := by
  simp [Ledger.charge, Budget.grow, Budget.check, Nat.not_lt.mpr h, bind, Except.bind, pure,
    Except.pure]

theorem charge_grow_error {ledger : Ledger} {oldBytes newBytes : Nat}
    (h : ledger.budget.limit < satAdd ledger.budget.used newBytes) :
    Ledger.charge (.grow oldBytes newBytes) ledger = .error (.error
      (.allocationLimit ledger.budget.limit (satAdd ledger.budget.used newBytes))) := by
  simp [Ledger.charge, Budget.grow, Budget.check, h, bind, Except.bind]

/-- Charges are granted exactly when their peak is within the limit. -/
theorem spend_ok_iff (cs : List Charge) (ledger : Ledger)
    (hlimit : ledger.budget.limit < usizeMax) (hused : ledger.budget.used ≤ ledger.budget.limit) :
    (∃ ledger', spend Ledger.charge cs ledger = .ok ledger') ↔
      peak ledger.budget.used cs ≤ ledger.budget.limit := by
  induction cs generalizing ledger with
  | nil => simpa [spend, peak] using hused
  | cons c cs ih =>
      cases c with
      | item => exact ih { ledger with decoded := ledger.decoded + 1 } hlimit hused
      | grow oldBytes newBytes =>
          by_cases hfit : ledger.budget.used + newBytes ≤ ledger.budget.limit
          · have hsat : satAdd ledger.budget.used newBytes = ledger.budget.used + newBytes :=
              Nat.min_eq_left (by omega)
            rw [spend, charge_grow_ok (by omega), hsat]
            have hrest := ih { ledger with budget := { ledger.budget with
              used := ledger.budget.used + newBytes - oldBytes } } hlimit
              (by show ledger.budget.used + newBytes - oldBytes ≤ ledger.budget.limit; omega)
            refine hrest.trans ?_
            rw [peak, Nat.max_le]
            exact ⟨fun h => ⟨hfit, h⟩, fun h => h.2⟩
          · have hsat : ledger.budget.limit < satAdd ledger.budget.used newBytes :=
              Nat.lt_min.mpr ⟨by omega, hlimit⟩
            have hpeak : ledger.budget.used + newBytes ≤
                peak ledger.budget.used (.grow oldBytes newBytes :: cs) := le_peak_grow
            rw [spend, charge_grow_error hsat]
            refine ⟨?_, fun hle => by omega⟩
            rintro ⟨_, h⟩
            cases h

theorem allocBytesFor_lt (length : Nat) : Limits.default.allocBytesFor length < usizeMax :=
  Nat.lt_of_le_of_lt (Nat.min_le_right _ _) (by decide)

/-- The default budget of `length` bytes grants charges whose peak stays within it. -/
theorem spend_default (cs : List Charge) (length : Nat) :
    (∃ ledger, spend Ledger.charge cs
        { budget := Limits.default.budget length, decoded := 0 } = .ok ledger) ↔
      peak 0 cs ≤ Limits.default.allocBytesFor length :=
  spend_ok_iff cs _ (allocBytesFor_lt length) (Nat.zero_le _)

/-- An unlimited budget grants everything. -/
theorem spend_unlimited (cs : List Charge) (ledger : Ledger)
    (hlimit : ledger.budget.limit = usizeMax) :
    ∃ ledger', spend Ledger.charge cs ledger = .ok ledger' ∧
      ledger'.budget.limit = usizeMax := by
  induction cs generalizing ledger with
  | nil => exact ⟨ledger, rfl, hlimit⟩
  | cons c cs ih =>
      cases c with
      | item => exact ih { ledger with decoded := ledger.decoded + 1 } hlimit
      | grow oldBytes newBytes =>
          have hfit : satAdd ledger.budget.used newBytes ≤ ledger.budget.limit := by
            rw [hlimit]
            exact Nat.min_le_right _ _
          rw [spend, charge_grow_ok hfit]
          exact ih _ hlimit

end Peak

section Safety

/-- Never panics, and decodes fewer elements than it reads bytes. -/
abbrev Safe {α : Type} (d : Decode α) : Prop := Frugal (· = Halt.panic) Ledger.decoded d

/-- Never panics, and decodes at most as many elements as it reads bytes. -/
abbrev BreaksEven {α : Type} (d : Decode α) : Prop := Thrifty (· = Halt.panic) Ledger.decoded d

theorem safe_fail {α : Type} (e : DecodeError) : Safe (fail e : Decode α) :=
  .throw fun h => nomatch h

theorem safe_failIf (c : Prop) [Decidable c] (e : DecodeError) : Safe (failIf c e) := by
  unfold failIf
  split
  · exact safe_fail _
  · exact .pure _

theorem charge_grow_safe (oldBytes newBytes : Nat) (ledger : Ledger) :
    match Ledger.charge (.grow oldBytes newBytes) ledger with
    | .ok ledger' => ledger'.decoded = ledger.decoded
    | .error e => ¬ e = .panic := by
  by_cases h : satAdd ledger.budget.used newBytes ≤ ledger.budget.limit
  · simp [charge_grow_ok h]
  · simp [charge_grow_error (Nat.not_le.mp h)]

/-- Growing reads nothing and counts nothing. -/
theorem growFor_counts {α : Type} (elem : Nat) (items : Vec α) (s : Reader Ledger) :
    match growFor elem items s with
    | .ok _ t => t.bytes = s.bytes ∧ t.state.decoded = s.state.decoded
    | .error e t => ¬ e = .panic ∧ t = s := by
  unfold growFor
  by_cases helem : elem = 0
  · rw [if_pos helem]
    exact ⟨rfl, rfl⟩
  · rw [if_neg helem, bind_apply]
    have h := charge_grow_safe (satMul items.capacity elem)
      (satMul (nextCapacity elem items.capacity) elem) s.state
    simp only [Decoder.draw]
    cases hc : Ledger.charge (.grow (satMul items.capacity elem)
        (satMul (nextCapacity elem items.capacity) elem)) s.state with
    | ok ledger =>
        simp only [hc] at h ⊢
        exact ⟨rfl, h⟩
    | error e =>
        simp only [hc] at h ⊢
        exact ⟨h, trivial⟩

/-- A push reads nothing and counts one element. -/
theorem push_counts {α : Type} (elem : Nat) (items : Vec α) (value : α) (s : Reader Ledger) :
    match push elem items value s with
    | .ok _ t => t.bytes = s.bytes ∧ t.state.decoded ≤ s.state.decoded + 1
    | .error e t => ¬ e = .panic ∧ t.bytes = s.bytes ∧
        t.state.decoded ≤ s.state.decoded + 1 := by
  unfold push
  by_cases hfull : items.items.length = items.capacity
  · rw [if_pos hfull, bind_apply]
    have h := growFor_counts elem items s
    cases hg : growFor elem items s with
    | ok items' t =>
        simp only [hg] at h
        exact ⟨h.1, by show t.state.decoded + 1 ≤ _; omega⟩
    | error e t =>
        simp only [hg] at h
        obtain ⟨he, rfl⟩ := h
        exact ⟨he, rfl, by omega⟩
  · rw [if_neg hfull]
    exact ⟨rfl, Nat.le_refl _⟩

end Safety

end Odradek.Protocol
