import Mathlib.Algebra.BigOperators.Group.List.Basic
import Mathlib.Algebra.GroupWithZero.Nat
import Odradek.Protocol.Budget

/-!
The budget's account against the bytes that are really mapped. A decode keeps
any number of vectors, one inside another, and grows them in turn; it may
charge for other storage and give that back. `used` is the sum of all of it,
and covers both blocks of a vector while it moves.
-/

namespace Odradek.Protocol

open Library

namespace Budget

def charge (budget : Budget) (bytes : Nat) : Except DecodeError Budget := do
  let used := satAdd budget.used bytes
  budget.check used
  pure { budget with used }

def release (budget : Budget) (bytes : Nat) : Budget :=
  { budget with used := budget.used - bytes }

def settle (budget : Budget) (charged actual : Nat) : Except DecodeError Budget :=
  if actual = charged then pure budget
  else do
    let used := satAdd budget.used actual - charged
    budget.check used
    pure { budget with used }

theorem check_eq (budget : Budget) (wanted : Nat) :
    budget.check wanted =
      if budget.limit < wanted then .error (.allocationLimit budget.limit wanted) else .ok () := rfl

end Budget

section InPlace

variable {V : Type}

/-- What `&mut self` and `&mut items` point at. -/
structure Held (V : Type) where
  budget : Budget
  items : Vec V

abbrev InPlace (V α : Type) := EStateM DecodeError (Held V) α

def InPlace.spend (f : Budget → Except DecodeError Budget) : InPlace V Unit := fun held =>
  match f held.budget with
  | .ok budget => .ok () { held with budget }
  | .error e => .error e held

/-- `Vec::try_reserve_exact`, by an allocator that grants exactly that. -/
def InPlace.reserveExact (additional : Nat) : InPlace V Unit := fun held =>
  .ok () { held with items := { held.items with
    capacity := max held.items.capacity (held.items.items.length + additional) } }

def InPlace.items : InPlace V (Vec V) := fun held => .ok held.items held

def InPlace.append (value : V) : InPlace V Unit := fun held =>
  .ok () { held with items := { held.items with items := held.items.items ++ [value] } }

/-- `Budget::grow_for`, on the vector where it is. -/
def growInPlace (elem : Nat) : InPlace V Unit :=
  if elem = 0 then pure ()
  else do
    let items ← InPlace.items
    let target := nextCapacity elem items.capacity
    let newBytes := satMul target elem
    InPlace.spend (·.grow (satMul items.capacity elem) newBytes)
    InPlace.reserveExact (target - items.items.length)
    let items ← InPlace.items
    InPlace.spend (·.settle newBytes (satMul items.capacity elem))

/-- `Budget::push`, on the vector where it is. -/
def pushInPlace (elem : Nat) (value : V) : InPlace V Unit := do
  let items ← InPlace.items
  if items.items.length = items.capacity then growInPlace elem
  InPlace.append value

variable {elem : Nat} {held : Held V}

theorem nextCapacity_ge (elem old : Nat) (hmax : old ≤ usizeMax) :
    old ≤ nextCapacity elem old := by
  unfold nextCapacity satMul
  split
  · omega
  · omega

/-- The bytes of the block a full vector moves into. -/
def Held.newBytes (elem : Nat) (held : Held V) : Nat :=
  satMul (nextCapacity elem held.items.capacity) elem

def Held.oldBytes (elem : Nat) (held : Held V) : Nat := satMul held.items.capacity elem

/-- A vector moved to its next capacity, and what is charged for it then. -/
def Held.grown (elem : Nat) (held : Held V) : Held V :=
  { budget := { held.budget with
      used := satAdd held.budget.used (held.newBytes elem) - held.oldBytes elem }
    items := { held.items with capacity := nextCapacity elem held.items.capacity } }

/-- A granted growth moves the vector and charges for it. -/
theorem growInPlace_granted (helem : elem ≠ 0)
    (hfull : held.items.items.length = held.items.capacity)
    (hmax : held.items.capacity ≤ usizeMax)
    (hfit : satAdd held.budget.used (held.newBytes elem) ≤ held.budget.limit) :
    growInPlace elem held = .ok () (held.grown elem) := by
  have hge := nextCapacity_ge elem held.items.capacity hmax
  have hcap : max held.items.capacity (held.items.items.length +
      (nextCapacity elem held.items.capacity - held.items.items.length)) =
        nextCapacity elem held.items.capacity := by
    omega
  have hgrow : held.budget.grow (held.oldBytes elem) (held.newBytes elem) =
      .ok (held.grown elem).budget := by
    simp only [Budget.grow, Budget.check_eq, if_neg (Nat.not_lt.mpr hfit)]
    rfl
  rw [growInPlace, if_neg helem]
  unfold Held.oldBytes Held.newBytes at hgrow
  simp only [bind, EStateM.bind, InPlace.items, InPlace.spend, hgrow, InPlace.reserveExact, hcap,
    Budget.settle, if_true, pure, Except.pure]
  rfl

theorem growInPlace_refused (helem : elem ≠ 0)
    (hover : held.budget.limit < satAdd held.budget.used (held.newBytes elem)) :
    growInPlace elem held = .error (.allocationLimit held.budget.limit
      (satAdd held.budget.used (held.newBytes elem))) held := by
  have hgrow : held.budget.grow (held.oldBytes elem) (held.newBytes elem) =
      .error (.allocationLimit held.budget.limit
        (satAdd held.budget.used (held.newBytes elem))) := by
    simp only [Budget.grow, Budget.check_eq, if_pos hover]
    rfl
  rw [growInPlace, if_neg helem]
  unfold Held.oldBytes Held.newBytes at hgrow
  simp only [bind, EStateM.bind, InPlace.items, InPlace.spend, hgrow]
  rfl

def Held.append (held : Held V) (value : V) : Held V :=
  { held with items := { held.items with items := held.items.items ++ [value] } }

/-- What a push can do: append in place, move first, or refuse. -/
theorem pushInPlace_cases (elem : Nat) (value : V) (held : Held V)
    (hmax : held.items.capacity ≤ usizeMax) :
    ((elem = 0 ∨ held.items.items.length ≠ held.items.capacity) ∧
      pushInPlace elem value held = .ok () (held.append value)) ∨
    (elem ≠ 0 ∧ held.items.items.length = held.items.capacity ∧
      satAdd held.budget.used (held.newBytes elem) ≤ held.budget.limit ∧
      pushInPlace elem value held = .ok () ((held.grown elem).append value)) ∨
    (elem ≠ 0 ∧ held.items.items.length = held.items.capacity ∧
      held.budget.limit < satAdd held.budget.used (held.newBytes elem) ∧
      ∃ e, pushInPlace elem value held = .error e held) := by
  by_cases hfull : held.items.items.length = held.items.capacity
  · by_cases helem : elem = 0
    · refine .inl ⟨.inl helem, ?_⟩
      simp only [pushInPlace, bind, EStateM.bind, InPlace.items, if_pos hfull, growInPlace,
        if_pos helem]
      rfl
    · by_cases hfit : satAdd held.budget.used (held.newBytes elem) ≤ held.budget.limit
      · refine .inr (.inl ⟨helem, hfull, hfit, ?_⟩)
        simp only [pushInPlace, bind, EStateM.bind, InPlace.items, if_pos hfull,
          growInPlace_granted helem hfull hmax hfit]
        rfl
      · refine .inr (.inr ⟨helem, hfull, Nat.lt_of_not_le hfit,
          .allocationLimit held.budget.limit (satAdd held.budget.used (held.newBytes elem)), ?_⟩)
        simp only [pushInPlace, bind, EStateM.bind, InPlace.items, if_pos hfull,
          growInPlace_refused helem (Nat.lt_of_not_le hfit)]
  · refine .inl ⟨.inr hfull, ?_⟩
    simp only [pushInPlace, bind, EStateM.bind, InPlace.items, if_neg hfull]
    rfl

/-- A decoder's push is this one. -/
theorem push_eq_pushInPlace (elem : Nat) (value : V) (held : Held V) (bytes : Bytes)
    (decoded : Nat) (hmax : held.items.capacity ≤ usizeMax) :
    push elem held.items value ⟨bytes, { budget := held.budget, decoded }⟩ =
      match pushInPlace elem value held with
      | .ok _ next => .ok next.items ⟨bytes, { budget := next.budget, decoded := decoded + 1 }⟩
      | .error e next => .error (.error e) ⟨bytes, { budget := next.budget, decoded }⟩ := by
  unfold push
  by_cases hfull : held.items.items.length = held.items.capacity
  · rw [if_pos hfull, growFor]
    by_cases helem : elem = 0
    · simp only [if_pos helem, pushInPlace, bind, EStateM.bind, InPlace.items, if_pos hfull,
        growInPlace]
      rfl
    · rw [if_neg helem]
      by_cases hfit : satAdd held.budget.used (held.newBytes elem) ≤ held.budget.limit
      · have hcharge : Ledger.charge (.grow (held.oldBytes elem) (held.newBytes elem))
            { budget := held.budget, decoded } =
              .ok { budget := (held.grown elem).budget, decoded } :=
          charge_grow_ok hfit
        unfold Held.oldBytes Held.newBytes at hcharge
        simp only [pushInPlace, bind, EStateM.bind, InPlace.items, if_pos hfull,
          growInPlace_granted helem hfull hmax hfit, Decoder.draw, hcharge]
        rfl
      · have hover := Nat.lt_of_not_le hfit
        have hcharge : Ledger.charge (.grow (held.oldBytes elem) (held.newBytes elem))
            { budget := held.budget, decoded } = _ :=
          charge_grow_error hover
        unfold Held.oldBytes Held.newBytes at hcharge
        simp only [pushInPlace, bind, EStateM.bind, InPlace.items, if_pos hfull,
          growInPlace_refused helem hover, Decoder.draw, hcharge]
        rfl
  · rw [if_neg hfull]
    simp only [pushInPlace, bind, EStateM.bind, InPlace.items, if_neg hfull]
    rfl

end InPlace

section Arena

variable {V : Type}

/-- A vector that is alive, and the bytes one element takes. -/
structure Block (V : Type) where
  elem : Nat
  items : Vec V

def Block.mapped (block : Block V) : Nat := block.items.capacity * block.elem

/-- Everything one budget pays for: the vectors, what vectors that are gone
took, and the other charges that have not been released. -/
structure Arena (V : Type) where
  budget : Budget
  live : List (Block V)
  lost : Nat
  charged : List Nat

namespace Arena

def new (maxAllocBytes : Nat) : Arena V :=
  { budget := .new maxAllocBytes, live := [], lost := 0, charged := [] }

def mapped (arena : Arena V) : Nat := (arena.live.map Block.mapped).sum

inductive Op (V : Type)
  | create (elem : Nat)
  | push (block : Nat) (value : V)
  | drop (block : Nat)
  | charge (bytes : Nat)
  | release (charge : Nat)

/-- The block at `i` and the budget, after a push or a refusal. -/
def put (arena : Arena V) (i : Nat) (block : Block V) (held : Held V) : Arena V :=
  { arena with budget := held.budget, live := arena.live.set i { block with items := held.items } }

/-- One operation. One that names no live block or charge does nothing. -/
def step (arena : Arena V) : Op V → Arena V
  | .create elem => { arena with live := { elem, items := Vec.new elem } :: arena.live }
  | .push i value =>
    match arena.live[i]? with
    | none => arena
    | some block =>
      match pushInPlace block.elem value { budget := arena.budget, items := block.items } with
      | .ok _ held => arena.put i block held
      | .error _ held => arena.put i block held
  | .drop i =>
    match arena.live[i]? with
    | none => arena
    | some block => { arena with live := arena.live.eraseIdx i, lost := arena.lost + block.mapped }
  | .charge bytes =>
    match arena.budget.charge bytes with
    | .ok budget => { arena with budget, charged := bytes :: arena.charged }
    | .error _ => arena
  | .release i =>
    match arena.charged[i]? with
    | none => arena
    | some bytes =>
      { arena with budget := arena.budget.release bytes, charged := arena.charged.eraseIdx i }

def run (arena : Arena V) (ops : List (Op V)) : Arena V := ops.foldl step arena

/-- The account is exact: every byte charged is mapped, was mapped by a vector
that is gone, or is charged for something else. -/
structure Sound (limit : Nat) (arena : Arena V) : Prop where
  limit_eq : arena.budget.limit = limit
  account : arena.budget.used = arena.mapped + arena.lost + arena.charged.sum
  bounded : arena.budget.used ≤ limit
  addressed : ∀ block ∈ arena.live, block.items.capacity ≤ usizeMax

/-- What one more operation does: a release takes back no more than is charged;
a vector that moves has both its blocks within the limit, beside all the others,
and is charged exactly the difference; a refused push changes nothing. -/
def Honest (limit : Nat) (arena : Arena V) : Op V → Prop
  | .release i => ∀ bytes ∈ arena.charged[i]?, bytes ≤ arena.budget.used
  | .push i value => ∀ block ∈ arena.live[i]?,
    match pushInPlace block.elem value { budget := arena.budget, items := block.items } with
    | .ok _ held =>
      held.items.capacity ≠ block.items.capacity →
        arena.mapped + held.items.capacity * block.elem ≤ limit ∧
        held.budget.used + block.mapped =
          arena.budget.used + held.items.capacity * block.elem
    | .error _ held => held = { budget := arena.budget, items := block.items }
  | _ => True

theorem sum_map_set {α : Type} {f : α → Nat} {l : List α} {i : Nat} {a : α} (b : α)
    (h : l[i]? = some a) : ((l.set i b).map f).sum + f a = (l.map f).sum + f b := by
  induction l generalizing i with
  | nil => cases h
  | cons c l ih =>
      cases i with
      | zero =>
          cases h
          simp only [List.set_cons_zero, List.map_cons, List.sum_cons]
          omega
      | succ i =>
          have hrest := ih (i := i) (by simpa using h)
          simp only [List.set_cons_succ, List.map_cons, List.sum_cons]
          omega

theorem sum_map_eraseIdx {α : Type} {f : α → Nat} {l : List α} {i : Nat} {a : α}
    (h : l[i]? = some a) : ((l.eraseIdx i).map f).sum + f a = (l.map f).sum := by
  induction l generalizing i with
  | nil => cases h
  | cons c l ih =>
      cases i with
      | zero =>
          cases h
          simp only [List.eraseIdx_cons_zero, List.map_cons, List.sum_cons]
          omega
      | succ i =>
          have hrest := ih (i := i) (by simpa using h)
          simp only [List.eraseIdx_cons_succ, List.map_cons, List.sum_cons]
          omega

variable {limit : Nat} {arena : Arena V}

theorem mapped_le {i : Nat} {block : Block V} (hblock : arena.live[i]? = some block) :
    block.mapped ≤ arena.mapped := by
  have h := sum_map_eraseIdx (f := Block.mapped) hblock
  unfold mapped
  omega

/-- A sum that passes the check did not saturate. -/
theorem satAdd_fits {a b : Nat} (hlimit : limit < usizeMax) (h : satAdd a b ≤ limit) :
    satAdd a b = a + b ∧ a + b ≤ limit := by
  unfold satAdd at h ⊢
  omega

/-- The new block of a vector that moves was charged in full, beside the old one. -/
theorem Sound.grown (h : arena.Sound limit) (hlimit : limit < usizeMax) {i : Nat} {block : Block V}
    (hblock : arena.live[i]? = some block)
    (hfit : satAdd arena.budget.used
      (Held.newBytes block.elem { budget := arena.budget, items := block.items }) ≤ limit) :
    (Held.grown block.elem { budget := arena.budget, items := block.items }).budget.used +
        block.mapped =
          arena.budget.used + nextCapacity block.elem block.items.capacity * block.elem ∧
      arena.budget.used + nextCapacity block.elem block.items.capacity * block.elem ≤ limit := by
  obtain ⟨hsum, hle⟩ := satAdd_fits hlimit hfit
  have hmapped := mapped_le hblock
  have haccount := h.account
  have hbounded := h.bounded
  simp only [Held.grown, hsum]
  simp only [Held.newBytes, Held.oldBytes, satMul, Block.mapped] at hle hmapped ⊢
  omega

/-- The next operation of a sound arena is honest. -/
theorem Sound.honest (h : arena.Sound limit) (hlimit : limit < usizeMax) (op : Op V) :
    arena.Honest limit op := by
  cases op with
  | create | drop | charge => exact trivial
  | release i =>
      intro bytes hbytes
      have hsum := sum_map_eraseIdx (f := id) hbytes
      have haccount := h.account
      simp only [List.map_id, id] at hsum
      omega
  | push i value =>
      intro block hblock
      have hmax := h.addressed block (List.mem_of_getElem? hblock)
      obtain ⟨_, hpush⟩ | ⟨_, _, hfit, hpush⟩ | ⟨_, _, _, e, hpush⟩ :=
        pushInPlace_cases block.elem value { budget := arena.budget, items := block.items } hmax
      · simp only [hpush]
        exact fun hne => absurd rfl hne
      · rw [h.limit_eq] at hfit
        obtain ⟨hused, hle⟩ := h.grown hlimit hblock hfit
        have haccount := h.account
        simp only [hpush]
        intro _
        refine ⟨Nat.le_trans (Nat.add_le_add_right ?_ _) hle, hused⟩
        omega
      · simp only [hpush]

theorem Sound.put (h : arena.Sound limit) {i : Nat} {block : Block V} {held : Held V}
    (hblock : arena.live[i]? = some block) (hsame : held.budget.limit = arena.budget.limit)
    (hmax : held.items.capacity ≤ usizeMax) (hused : held.budget.used ≤ limit)
    (haccount : held.budget.used + block.mapped =
      arena.budget.used + held.items.capacity * block.elem) :
    (arena.put i block held).Sound limit := by
  have hsum := sum_map_set (f := Block.mapped) { block with items := held.items } hblock
  have hbefore := h.account
  refine ⟨hsame.trans h.limit_eq, ?_, hused, ?_⟩
  · simp only [Arena.put, mapped] at hsum hbefore ⊢
    have hnew : Block.mapped { block with items := held.items } =
        held.items.capacity * block.elem := rfl
    omega
  · intro b hb
    obtain hb | rfl := List.mem_or_eq_of_mem_set hb
    · exact h.addressed b hb
    · exact hmax

theorem nextCapacity_le (elem old : Nat) : nextCapacity elem old ≤ usizeMax := by
  unfold nextCapacity firstCapacity satMul usizeMax
  split
  · split <;> [skip; split] <;> omega
  · omega

/-- One operation keeps the account. -/
theorem Sound.step (h : arena.Sound limit) (hlimit : limit < usizeMax) (op : Op V) :
    (arena.step op).Sound limit := by
  have haccount := h.account
  have hbounded := h.bounded
  cases op with
  | create elem =>
      have hzero : Block.mapped { elem, items := (Vec.new elem : Vec V) } = 0 := by
        unfold Block.mapped Vec.new
        simp only
        split
        · rename_i helem
          rw [helem, Nat.mul_zero]
        · rw [Nat.zero_mul]
      refine ⟨h.limit_eq, ?_, hbounded, List.forall_mem_cons.mpr ⟨?_, h.addressed⟩⟩
      · simp only [Arena.step, mapped, List.map_cons, List.sum_cons, hzero] at haccount ⊢
        omega
      · unfold Vec.new
        simp only
        split <;> omega
  | push i value =>
      simp only [Arena.step]
      cases hblock : arena.live[i]? with
      | none => exact h
      | some block =>
          have hmax := h.addressed block (List.mem_of_getElem? hblock)
          obtain ⟨_, hpush⟩ | ⟨_, _, hfit, hpush⟩ | ⟨_, _, _, e, hpush⟩ :=
            pushInPlace_cases block.elem value { budget := arena.budget, items := block.items } hmax
          · simp only [hpush]
            exact h.put hblock rfl hmax hbounded rfl
          · rw [h.limit_eq] at hfit
            obtain ⟨hused, hle⟩ := h.grown hlimit hblock hfit
            simp only [hpush]
            refine h.put hblock rfl (nextCapacity_le _ _) ?_ hused
            exact Nat.le_trans (Nat.le_add_right _ _) (hused.trans_le hle)
          · simp only [hpush]
            exact h.put hblock rfl hmax hbounded rfl
  | drop i =>
      simp only [Arena.step]
      cases hblock : arena.live[i]? with
      | none => exact h
      | some block =>
          have hsum := sum_map_eraseIdx (f := Block.mapped) hblock
          refine ⟨h.limit_eq, ?_, hbounded, fun b hb => h.addressed b (List.mem_of_mem_eraseIdx hb)⟩
          simp only [mapped] at haccount ⊢
          omega
  | charge bytes =>
      simp only [Arena.step, Budget.charge, Budget.check_eq, h.limit_eq]
      by_cases hover : limit < satAdd arena.budget.used bytes
      · simp only [if_pos hover, bind, Except.bind]
        exact h
      · obtain ⟨hsum, hle⟩ := satAdd_fits hlimit (Nat.le_of_not_lt hover)
        simp only [if_neg hover, bind, Except.bind, pure, Except.pure]
        refine ⟨rfl, ?_, Nat.le_of_not_lt hover, h.addressed⟩
        simp only [mapped, List.sum_cons] at haccount ⊢
        omega
  | release i =>
      simp only [Arena.step]
      cases hbytes : arena.charged[i]? with
      | none => exact h
      | some bytes =>
          have hsum := sum_map_eraseIdx (f := id) hbytes
          simp only [List.map_id, id] at hsum
          refine ⟨h.limit_eq, ?_, Nat.le_trans (Nat.sub_le _ _) hbounded, h.addressed⟩
          simp only [Budget.release, mapped] at haccount ⊢
          omega

theorem Sound.new (limit : Nat) : (new limit : Arena V).Sound limit :=
  ⟨rfl, rfl, Nat.zero_le _, fun _ h => absurd h List.not_mem_nil⟩

/-- Whatever a decode did with its budget, the account is exact and within the
limit, and so is the next operation. -/
theorem run_sound {limit : Nat} (hlimit : limit < usizeMax) (ops : List (Op V)) :
    ((new limit : Arena V).run ops).Sound limit ∧
      ∀ op, ((new limit : Arena V).run ops).Honest limit op := by
  have hsound : ∀ (ops : List (Op V)) (arena : Arena V), arena.Sound limit →
      (arena.run ops).Sound limit := by
    intro ops
    induction ops with
    | nil => exact fun _ h => h
    | cons op ops ih => exact fun arena h => ih (arena.step op) (h.step hlimit op)
  have h := hsound ops (new limit) (.new limit)
  exact ⟨h, h.honest hlimit⟩

/-- The fifth element moves a vector of four. -/
def movingOps : List (Op Nat) :=
  [.create 8, .push 0 1, .push 0 2, .push 0 3, .push 0 4, .push 0 5, .charge 10]

/-- 100 bytes are enough for four eight-byte elements and eight of them at once; what is
charged then is on top of the eight. -/
theorem run_sound_hundred :
    ((new 100 : Arena Nat).run movingOps).live.map (fun block => block.items.capacity) = [8] ∧
    ((new 100 : Arena Nat).run movingOps).budget.used = 74 ∧
    ((new 100 : Arena Nat).run movingOps).Sound 100 ∧
      ∀ op, ((new 100 : Arena Nat).run movingOps).Honest 100 op :=
  ⟨by decide, by decide, run_sound (by decide) _⟩

/-- The limit that enforces nothing: two charges saturate, and giving both back
takes more than is there. -/
theorem unlimited_underflows :
    ¬ ∀ (limit : Nat), limit ≤ usizeMax → ∀ ops : List (Op Nat),
      ((new limit : Arena Nat).run ops).Sound limit ∧
        ∀ op, ((new limit : Arena Nat).run ops).Honest limit op := by
  intro h
  obtain ⟨_, honest⟩ := h usizeMax (Nat.le_refl _)
    [.charge usizeMax, .charge usizeMax, .release 0]
  have hrelease := honest (.release 0) usizeMax rfl
  exact absurd hrelease (by decide)

end Arena
end Arena

end Odradek.Protocol
