import Odradek.Library.Decoder

/-!
Decoders on inputs of some length. On at most `n` bytes: a decoder that calls
itself is bounded by induction on its input, for a call that comes after
something was read sees fewer bytes, and only the others need a measure of their
own. On at least `k` bytes: reads without a check of their own do not run short
where the length has been checked before.
-/

namespace Library
namespace Decoder

variable {ε ρ α β : Type}

/-- `R` holds between the ends of every run from where `P` does, and no fault of
it is a forbidden one. -/
def BoundedOn (forbidden : ε → Prop) (R : Reader ρ → Reader ρ → Prop) (P : Reader ρ → Prop)
    (d : Decoder ε ρ α) : Prop :=
  ∀ s, P s → match d s with
    | .ok _ t => R s t
    | .error e t => ¬ forbidden e ∧ R s t

abbrev BoundedTo (forbidden : ε → Prop) (R : Reader ρ → Reader ρ → Prop) (n : Nat)
    (d : Decoder ε ρ α) : Prop :=
  BoundedOn forbidden R (fun s => s.bytes.length ≤ n) d

abbrev BoundedFrom (forbidden : ε → Prop) (R : Reader ρ → Reader ρ → Prop) (k : Nat)
    (d : Decoder ε ρ α) : Prop :=
  BoundedOn forbidden R (fun s => k ≤ s.bytes.length) d

abbrev FrugalTo (forbidden : ε → Prop) (weight : ρ → Nat) (n : Nat) (d : Decoder ε ρ α) : Prop :=
  BoundedTo forbidden (Spends weight) n d

abbrev ThriftyTo (forbidden : ε → Prop) (weight : ρ → Nat) (n : Nat) (d : Decoder ε ρ α) : Prop :=
  BoundedTo forbidden (Keeps weight) n d

variable {forbidden : ε → Prop} {weight : ρ → Nat} {n m : Nat} {d : Decoder ε ρ α}
  {f : α → Decoder ε ρ β} {R Q : Reader ρ → Reader ρ → Prop}

theorem BoundedTo.mono (h : BoundedTo forbidden R n d) (hm : m ≤ n) : BoundedTo forbidden R m d :=
  fun s hs => h s (Nat.le_trans hs hm)

theorem BoundedTo.imp (h : BoundedTo forbidden R n d) (hR : ∀ s t, R s t → Q s t) :
    BoundedTo forbidden Q n d := by
  intro s hs
  have hd := h s hs
  cases hrun : d s with
  | ok a t =>
      rw [hrun] at hd
      exact hR s t hd
  | error e t =>
      rw [hrun] at hd
      exact ⟨hd.1, hR s t hd.2⟩

/-- One after the other, where the second starts from what the first left. -/
theorem BoundedTo.bind_of {Q : α → Reader ρ → Reader ρ → Prop} {S : Reader ρ → Reader ρ → Prop}
    (hd : BoundedTo forbidden R n d) (hfault : ∀ s t, R s t → S s t)
    (hf : ∀ s a t, s.bytes.length ≤ n → d s = .ok a t → R s t →
      BoundedTo forbidden (Q a) t.bytes.length (f a) ∧ ∀ u, Q a t u → S s u) :
    BoundedTo forbidden S n (d >>= f) := by
  intro s hs
  have hfirst := hd s hs
  rw [bind_apply]
  cases hrun : d s with
  | error e t =>
      rw [hrun] at hfirst
      exact ⟨hfirst.1, hfault s t hfirst.2⟩
  | ok a t =>
      rw [hrun] at hfirst
      obtain ⟨hrest, hboth⟩ := hf s a t hs hrun hfirst
      have hsecond := hrest t (Nat.le_refl _)
      cases hrun' : f a t with
      | ok b u =>
          simp only [hrun'] at hsecond ⊢
          exact hboth u hsecond
      | error e u =>
          simp only [hrun'] at hsecond ⊢
          exact ⟨hsecond.1, hboth u hsecond.2⟩

theorem Spends.length_le {s t : Reader ρ} (h : Spends weight s t) :
    t.bytes.length ≤ s.bytes.length :=
  h.keeps.1

theorem Frugal.upTo (h : Frugal forbidden weight d) : FrugalTo forbidden weight n d :=
  fun s _ => h s

theorem FrugalTo.thrifty (h : FrugalTo forbidden weight n d) : ThriftyTo forbidden weight n d :=
  h.imp fun _ _ => Spends.keeps

theorem FrugalTo.bind (hd : FrugalTo forbidden weight n d)
    (hf : ∀ a, FrugalTo forbidden weight n (f a)) : FrugalTo forbidden weight n (d >>= f) :=
  BoundedTo.bind_of hd (fun _ _ h => h) fun _ a _ hs _ h =>
    ⟨(hf a).mono (Nat.le_trans h.length_le hs), fun _ => h.trans⟩

theorem ThriftyTo.bind (hd : ThriftyTo forbidden weight n d)
    (hf : ∀ a, ThriftyTo forbidden weight n (f a)) : ThriftyTo forbidden weight n (d >>= f) :=
  BoundedTo.bind_of hd (fun _ _ h => h) fun _ a _ hs _ h =>
    ⟨(hf a).mono (Nat.le_trans h.1 hs), fun _ => h.trans⟩

/-- After something was read there are fewer bytes, and a call may break even. -/
theorem FrugalTo.bind_shorter (hd : FrugalTo forbidden weight n d) (hc : Consumes d)
    (hf : ∀ a m, m < n → ThriftyTo forbidden weight m (f a)) :
    FrugalTo forbidden weight n (d >>= f) := by
  refine BoundedTo.bind_of (Q := fun _ => Keeps weight) hd (fun _ _ h => h)
    fun s a t hs hrun h => ?_
  have hlt := hc s a t hrun
  refine ⟨hf a _ (Nat.lt_of_lt_of_le hlt hs), fun u hu => ?_⟩
  simp only [Spends, Keeps] at h hu ⊢
  omega

/-- From `s` to `t` nothing was read and at most `k` units of weight added. -/
def Adds (weight : ρ → Nat) (k : Nat) (s t : Reader ρ) : Prop :=
  t.bytes = s.bytes ∧ weight t.state ≤ weight s.state + k

theorem Adds.refl (k : Nat) (s : Reader ρ) : Adds weight k s s := ⟨rfl, Nat.le_add_right _ _⟩

theorem Adds.trans {k l : Nat} {s t u : Reader ρ} (h : Adds weight k s t) (h' : Adds weight l t u) :
    Adds weight (k + l) s u := by
  refine ⟨h'.1.trans h.1, ?_⟩
  have := h.2
  have := h'.2
  omega

theorem Adds.mono {k l : Nat} {s t : Reader ρ} (h : Adds weight k s t) (hl : k ≤ l) :
    Adds weight l s t :=
  ⟨h.1, Nat.le_trans h.2 (Nat.add_le_add_left hl _)⟩

theorem BoundedTo.pure (a : α) (h : ∀ s, R s s) : BoundedTo forbidden R n (Pure.pure a) :=
  fun s _ => h s

/-- Weights add up. -/
theorem BoundedTo.bind_adds {k l : Nat} (hd : BoundedTo forbidden (Adds weight k) n d)
    (hf : ∀ a, BoundedTo forbidden (Adds weight l) n (f a)) :
    BoundedTo forbidden (Adds weight (k + l)) n (d >>= f) :=
  BoundedTo.bind_of hd (fun _ _ h => h.mono (Nat.le_add_right k l)) fun _ a _ hs _ h =>
    ⟨(hf a).mono (by rw [h.1]; exact hs), fun _ => h.trans⟩

/-- What was read pays for one more unit of weight. -/
theorem ThriftyTo.counted (hd : FrugalTo forbidden weight n d) (hc : Consumes d)
    (hf : ∀ a m, BoundedTo forbidden (Adds weight 1) m (f a)) :
    ThriftyTo forbidden weight n (d >>= f) := by
  refine BoundedTo.bind_of hd (fun _ _ h => h.keeps) fun s a t _ hrun h => ⟨hf a _, fun u hu => ?_⟩
  have hlt := hc s a t hrun
  simp only [Spends, Keeps, Adds] at h hu ⊢
  rw [hu.1]
  omega

/-- On bytes of its own a decoder adds no more weight than there are of them. -/
theorem BoundedOn.within {bytes : List UInt8} {P : Reader ρ → Prop}
    (hd : BoundedOn forbidden (Keeps weight) (fun s => s.bytes = bytes) d) :
    BoundedOn forbidden (Adds weight bytes.length) P (within bytes d) := by
  intro s _
  have h := hd { s with bytes } rfl
  unfold Decoder.within
  cases hrun : d { s with bytes } with
  | ok a t =>
      simp only [hrun, Keeps] at h ⊢
      refine ⟨rfl, ?_⟩
      show weight t.state ≤ weight s.state + bytes.length
      omega
  | error e t =>
      simp only [hrun, Keeps] at h ⊢
      refine ⟨h.1, rfl, ?_⟩
      show weight t.state ≤ weight s.state + bytes.length
      omega

theorem FrugalTo.within {bytes : List UInt8} (hd : FrugalTo forbidden weight bytes.length d) :
    BoundedTo forbidden (Adds weight bytes.length) n (within bytes d) :=
  BoundedOn.within fun s hs => hd.thrifty s (Nat.le_of_eq (congrArg List.length hs))

section Unchecked

variable {k w : Nat} {S : Reader ρ → Reader ρ → Prop}

/-- Takes `w` bytes where there are so many, and otherwise does nothing. -/
def Takes (forbidden : ε → Prop) (w : Nat) (d : Decoder ε ρ α) : Prop :=
  ∀ s, w ≤ s.bytes.length → match d s with
    | .ok _ t => t = { s with bytes := s.bytes.drop w }
    | .error e t => ¬ forbidden e ∧ t = s

theorem Takes.split (short : ε) (w : Nat) : Takes forbidden w (split short w : Decoder ε ρ _) := by
  intro s hs
  simp only [Decoder.split, if_pos hs]

theorem Takes.map (h : Takes forbidden w d) (g : α → β) :
    Takes forbidden w (d >>= fun a => pure (g a)) := by
  intro s hs
  have hd := h s hs
  rw [bind_apply]
  cases hrun : d s with
  | ok a t =>
      rw [hrun] at hd
      exact hd
  | error e t =>
      rw [hrun] at hd
      exact hd

/-- What follows has `w` bytes less to rely on. -/
theorem Takes.bind_of (hd : Takes forbidden w d) (hrefl : ∀ s, S s s)
    (hf : ∀ a, BoundedFrom forbidden R k (f a))
    (hS : ∀ s u, w ≤ s.bytes.length → R { s with bytes := s.bytes.drop w } u → S s u) :
    BoundedFrom forbidden S (w + k) (d >>= f) := by
  intro s hs
  have hw : w ≤ s.bytes.length := Nat.le_trans (Nat.le_add_right w k) hs
  have hfirst := hd s hw
  rw [bind_apply]
  cases hrun : d s with
  | error e t =>
      rw [hrun] at hfirst
      obtain ⟨he, rfl⟩ := hfirst
      exact ⟨he, hrefl t⟩
  | ok a t =>
      rw [hrun] at hfirst
      subst hfirst
      have hleft : k ≤ (s.bytes.drop w).length := by
        rw [List.length_drop]
        omega
      have hsecond := hf a { s with bytes := s.bytes.drop w } hleft
      cases hrun' : f a { s with bytes := s.bytes.drop w } with
      | ok b u =>
          simp only [hrun'] at hsecond ⊢
          exact hS s u hw hsecond
      | error e u =>
          simp only [hrun'] at hsecond ⊢
          exact ⟨hsecond.1, hS s u hw hsecond.2⟩

theorem Keeps.drop {s u : Reader ρ} (hw : w ≤ s.bytes.length)
    (h : Keeps weight { s with bytes := s.bytes.drop w } u) :
    u.bytes.length + w ≤ s.bytes.length ∧
      u.bytes.length + w + weight u.state ≤ s.bytes.length + weight s.state := by
  simp only [Keeps, List.length_drop] at h
  omega

theorem Takes.bind (hd : Takes forbidden w d)
    (hf : ∀ a, BoundedFrom forbidden (Keeps weight) k (f a)) :
    BoundedFrom forbidden (Keeps weight) (w + k) (d >>= f) := by
  refine hd.bind_of (fun s => ⟨Nat.le_refl _, Nat.le_refl _⟩) hf fun s u hw h => ?_
  have := h.drop hw
  simp only [Keeps]
  omega

/-- A byte that was taken pays for what is counted later. -/
theorem Takes.bind_pos (hd : Takes forbidden w d) (hpos : 0 < w)
    (hf : ∀ a, BoundedFrom forbidden (Keeps weight) k (f a)) :
    BoundedFrom forbidden (Spends weight) (w + k) (d >>= f) := by
  refine hd.bind_of Spends.refl hf fun s u hw h => ?_
  have := h.drop hw
  simp only [Spends]
  omega

/-- Bytes that were taken pay for a decoder that runs on them. -/
theorem split_then (short : ε) {g : List UInt8 → Decoder ε ρ β}
    (hg : ∀ bytes : List UInt8, bytes.length = w →
      BoundedOn forbidden (Adds weight w) (fun _ => True) (g bytes)) :
    BoundedFrom forbidden (Keeps weight) w (Decoder.split short w >>= g) := by
  intro s hs
  have hlen : (s.bytes.take w).length = w := List.length_take_of_le hs
  have h := hg _ hlen { s with bytes := s.bytes.drop w } trivial
  rw [bind_apply]
  simp only [Decoder.split, if_pos hs]
  cases hrun : g (s.bytes.take w) { s with bytes := s.bytes.drop w } with
  | ok b u =>
      simp only [hrun, Adds, Keeps] at h ⊢
      rw [h.1, List.length_drop]
      omega
  | error e u =>
      simp only [hrun, Adds, Keeps] at h ⊢
      rw [h.2.1, List.length_drop]
      exact ⟨h.1, by omega⟩

end Unchecked

section Quiet

def Quiet (d : Decoder ε ρ α) : Prop := ∀ s a t, d s = .ok a t → t.state = s.state

theorem Quiet.pure (a : α) : Quiet (pure a : Decoder ε ρ α) := by
  intro s b t h
  cases h
  rfl

theorem Quiet.throw (e : ε) : Quiet (throw e : Decoder ε ρ α) := fun _ _ _ h => nomatch h

theorem Quiet.remaining : Quiet (remaining : Decoder ε ρ Nat) := by
  intro s a t h
  cases h
  rfl

theorem Quiet.split (short : ε) (len : Nat) : Quiet (split short len : Decoder ε ρ _) := by
  intro s a t h
  unfold Decoder.split at h
  split at h <;> cases h
  rfl

theorem Quiet.bind (hd : Quiet d) (hf : ∀ a, Quiet (f a)) : Quiet (d >>= f) := by
  intro s b u h
  obtain ⟨a, t, hrun, h⟩ := bind_eq_ok.mp h
  rw [hf a t b u h, hd s a t hrun]

end Quiet

end Decoder
end Library
