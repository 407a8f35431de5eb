import Odradek.Library.Decoder

/-!
Decoders that a resource can stop and not lead astray: over the same bytes two runs
that both succeed return the same value and leave the same bytes, however much of
the resource each had.
-/

namespace Library.Decoder

variable {ε ρ α β : Type} {d : Decoder ε ρ α} {f : α → Decoder ε ρ β}

def Evenhanded (d : Decoder ε ρ α) : Prop :=
  ∀ ⦃s s' t t' : Reader ρ⦄ ⦃a a' : α⦄, s.bytes = s'.bytes → d s = .ok a t → d s' = .ok a' t' →
    a = a' ∧ t.bytes = t'.bytes

theorem Evenhanded.pure (a : α) : Evenhanded (pure a : Decoder ε ρ α) := by
  intro s s' t t' b b' hbytes h h'
  cases h
  cases h'
  exact ⟨rfl, hbytes⟩

theorem Evenhanded.throw (e : ε) : Evenhanded (throw e : Decoder ε ρ α) := by
  intro s s' t t' a a' _ h
  cases h

theorem Evenhanded.bind (hd : Evenhanded d) (hf : ∀ a, Evenhanded (f a)) :
    Evenhanded (d >>= f) := by
  intro s s' t t' b b' hbytes h h'
  obtain ⟨a, u, hfirst, hrest⟩ := bind_eq_ok.mp h
  obtain ⟨a', u', hfirst', hrest'⟩ := bind_eq_ok.mp h'
  obtain ⟨rfl, hleft⟩ := hd hbytes hfirst hfirst'
  exact hf a hleft hrest hrest'

theorem Evenhanded.either {c : Prop} [Decidable c] {d' : Decoder ε ρ α} (hd : Evenhanded d)
    (hd' : Evenhanded d') : Evenhanded (if c then d else d') := by
  split
  · exact hd
  · exact hd'

theorem Evenhanded.remaining : Evenhanded (remaining : Decoder ε ρ Nat) := by
  intro s s' t t' n n' hbytes h h'
  cases h
  cases h'
  exact ⟨congrArg List.length hbytes, hbytes⟩

theorem Evenhanded.split (short : ε) (n : Nat) :
    Evenhanded (split short n : Decoder ε ρ (List UInt8)) := by
  intro s s' t t' a a' hbytes h h'
  unfold Decoder.split at h h'
  rw [← hbytes] at h'
  split at h
  · cases h
    rw [if_pos ‹_›] at h'
    cases h'
    exact ⟨rfl, rfl⟩
  · cases h

theorem Evenhanded.draw (g : ρ → Except ε ρ) : Evenhanded (draw g) := by
  intro s s' t t' a a' hbytes h h'
  unfold Decoder.draw at h h'
  split at h
  · cases h
    split at h'
    · cases h'
      exact ⟨rfl, hbytes⟩
    · cases h'
  · cases h

/-- The bytes of its own are the same; the bytes around them are left as they are. -/
theorem Evenhanded.within (hd : Evenhanded d) (bytes : List UInt8) :
    Evenhanded (within bytes d) := by
  intro s s' t t' a a' hbytes h h'
  unfold Decoder.within at h h'
  split at h
  case h_1 hinner =>
    cases h
    split at h'
    case h_1 hinner' =>
      cases h'
      exact ⟨(@hd ⟨bytes, s.state⟩ ⟨bytes, s'.state⟩ _ _ _ _ rfl hinner hinner').1, hbytes⟩
    case h_2 => cases h'
  case h_2 => cases h

end Library.Decoder
