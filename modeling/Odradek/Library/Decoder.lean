/-!
Decoders over a byte buffer with a resource beside it. A decoder takes bytes
off the front and may draw on the resource; it ends with a value or a fault,
and keeps its state either way.

`Decodes` is the round trip: a decoder given an encoding and anything after it
returns the value, leaves what comes after, and makes a fixed list of charges.
`Frugal` is the converse bound: whatever the bytes are, a decoder never raises
a forbidden fault and the weight it adds to the resource stays below the bytes
it consumes.
-/

namespace Library

/-- The bytes still to be read, and the resource. -/
structure Reader (ρ : Type) where
  bytes : List UInt8
  state : ρ

abbrev Decoder (ε ρ α : Type) := EStateM ε (Reader ρ) α

namespace Decoder

variable {ε ρ κ α β : Type}

theorem bind_apply (d : Decoder ε ρ α) (f : α → Decoder ε ρ β) (s : Reader ρ) :
    (d >>= f) s = match d s with
      | .ok a t => f a t
      | .error e t => .error e t := by
  show EStateM.bind d f s = _
  unfold EStateM.bind
  cases d s <;> rfl

theorem pure_apply (a : α) (s : Reader ρ) : (pure a : Decoder ε ρ α) s = .ok a s := rfl

theorem bind_eq_ok {d : Decoder ε ρ α} {f : α → Decoder ε ρ β} {s t : Reader ρ} {b : β} :
    (d >>= f) s = .ok b t ↔ ∃ a u, d s = .ok a u ∧ f a u = .ok b t := by
  rw [bind_apply]
  cases h : d s with
  | error e u => simp
  | ok a u =>
      refine ⟨fun hf => ⟨a, u, rfl, hf⟩, ?_⟩
      rintro ⟨a', u', heq, hf⟩
      cases heq
      exact hf

def remaining : Decoder ε ρ Nat := fun s => .ok s.bytes.length s

def split (short : ε) (n : Nat) : Decoder ε ρ (List UInt8) := fun s =>
  if n ≤ s.bytes.length then .ok (s.bytes.take n) { s with bytes := s.bytes.drop n }
  else .error short s

/-- Run a decoder on bytes of its own, with the same resource. -/
def within (bytes : List UInt8) (d : Decoder ε ρ α) : Decoder ε ρ α := fun s =>
  match d { s with bytes } with
  | .ok a t => .ok a { s with state := t.state }
  | .error e t => .error e { s with state := t.state }

/-- Change the resource, or fault. -/
def draw (f : ρ → Except ε ρ) : Decoder ε ρ Unit := fun s =>
  match f s.state with
  | .ok r => .ok () { s with state := r }
  | .error e => .error e s

section RoundTrip

variable (charge : κ → ρ → Except ε ρ)

def spend : List κ → ρ → Except ε ρ
  | [], r => .ok r
  | c :: cs, r => charge c r >>= spend cs

theorem spend_append (cs ds : List κ) (r : ρ) :
    spend charge (cs ++ ds) r = spend charge cs r >>= spend charge ds := by
  induction cs generalizing r with
  | nil => rfl
  | cons c cs ih =>
      simp only [List.cons_append, spend]
      cases charge c r with
      | ok r' => exact ih r'
      | error e => rfl

/-- Given `bytes` before `suffix`, `d` returns `a`, leaves the suffix and makes
the charges `cs`; if the resource refuses one of them it ends with that fault. -/
def DecodesTo (suffix : List UInt8) (d : Decoder ε ρ α) (bytes : List UInt8) (a : α)
    (cs : List κ) : Prop :=
  ∀ r,
    (∀ r', spend charge cs r = .ok r' → d ⟨bytes ++ suffix, r⟩ = .ok a ⟨suffix, r'⟩) ∧
    (∀ e, spend charge cs r = .error e → ∃ t, d ⟨bytes ++ suffix, r⟩ = .error e t)

/-- The same whatever follows. -/
def Decodes (d : Decoder ε ρ α) (bytes : List UInt8) (a : α) (cs : List κ) : Prop :=
  ∀ suffix, DecodesTo charge suffix d bytes a cs

variable {charge} {d : Decoder ε ρ α} {f : α → Decoder ε ρ β} {xs ys suffix : List UInt8} {a : α}
  {b : β} {cs ds : List κ}

theorem Decodes.pure : Decodes charge (pure a) [] a [] := by
  intro suffix r
  refine ⟨?_, ?_⟩
  · intro r' h
    cases h
    rfl
  · intro e h
    cases h

/-- Decoders compose, and so do their charges. -/
theorem DecodesTo.bind (hd : DecodesTo charge (ys ++ suffix) d xs a cs)
    (hf : DecodesTo charge suffix (f a) ys b ds) :
    DecodesTo charge suffix (d >>= f) (xs ++ ys) b (cs ++ ds) := by
  intro r
  rw [List.append_assoc, spend_append, bind_apply]
  obtain ⟨hok, herr⟩ := hd r
  cases h : spend charge cs r with
  | ok r₁ =>
      rw [hok r₁ h]
      exact hf r₁
  | error e =>
      obtain ⟨t, ht⟩ := herr e h
      rw [ht]
      refine ⟨?_, ?_⟩
      · intro r' h'
        cases h'
      · intro e' h'
        cases h'
        exact ⟨t, rfl⟩

theorem Decodes.bind (hd : Decodes charge d xs a cs) (hf : Decodes charge (f a) ys b ds) :
    Decodes charge (d >>= f) (xs ++ ys) b (cs ++ ds) :=
  fun suffix => (hd (ys ++ suffix)).bind (hf suffix)

/-- The suffix may matter to what comes last. -/
theorem Decodes.before (hd : Decodes charge d xs a cs)
    (hf : DecodesTo charge suffix (f a) ys b ds) :
    DecodesTo charge suffix (d >>= f) (xs ++ ys) b (cs ++ ds) :=
  (hd (ys ++ suffix)).bind hf

theorem Decodes.before_free (hd : Decodes charge d xs a [])
    (hf : DecodesTo charge suffix (f a) ys b ds) :
    DecodesTo charge suffix (d >>= f) (xs ++ ys) b ds :=
  hd.before hf

theorem Decodes.before_look (hd : Decodes charge d [] a [])
    (hf : DecodesTo charge suffix (f a) ys b ds) : DecodesTo charge suffix (d >>= f) ys b ds :=
  hd.before hf

theorem Decodes.before_rest (hd : Decodes charge d xs a [])
    (hf : DecodesTo charge suffix (f a) [] b ds) :
    DecodesTo charge suffix (d >>= f) xs b ds := by
  have h := hd.before hf
  rwa [List.append_nil] at h

theorem DecodesTo.remaining {f : Nat → Decoder ε ρ β}
    (hf : DecodesTo charge suffix (f (ys.length + suffix.length)) ys b ds) :
    DecodesTo charge suffix (Decoder.remaining >>= f) ys b ds := by
  intro r
  have hlook : (Decoder.remaining >>= f) ⟨ys ++ suffix, r⟩ =
      f (ys.length + suffix.length) ⟨ys ++ suffix, r⟩ := by
    rw [bind_apply, Decoder.remaining, ← List.length_append]
  rw [hlook]
  exact hf r

/-- First a decoder that charges nothing. -/
theorem Decodes.bind_free (hd : Decodes charge d xs a []) (hf : Decodes charge (f a) ys b ds) :
    Decodes charge (d >>= f) (xs ++ ys) b ds :=
  hd.bind hf

/-- First a decoder that reads nothing. -/
theorem Decodes.bind_unread (hd : Decodes charge d [] a cs)
    (hf : Decodes charge (f a) ys b ds) : Decodes charge (d >>= f) ys b (cs ++ ds) :=
  hd.bind hf

/-- First a decoder that neither reads nor charges. -/
theorem Decodes.bind_look (hd : Decodes charge d [] a []) (hf : Decodes charge (f a) ys b ds) :
    Decodes charge (d >>= f) ys b ds :=
  hd.bind hf

/-- Last a decoder that neither reads nor charges. -/
theorem Decodes.bind_last (hd : Decodes charge d xs a cs) (hf : Decodes charge (f a) [] b []) :
    Decodes charge (d >>= f) xs b cs := by
  have h := hd.bind hf
  rwa [List.append_nil, List.append_nil] at h

/-- Last a decoder that does not read. -/
theorem Decodes.bind_rest (hd : Decodes charge d xs a []) (hf : Decodes charge (f a) [] b ds) :
    Decodes charge (d >>= f) xs b ds :=
  fun suffix => hd.before_rest (hf suffix)

/-- What comes after reads nothing more. -/
theorem Decodes.bind_read (hd : Decodes charge d xs a cs) (hf : Decodes charge (f a) [] b ds) :
    Decodes charge (d >>= f) xs b (cs ++ ds) := by
  have h := hd.bind hf
  rwa [List.append_nil] at h

theorem Decodes.bind_pure (hd : Decodes charge d xs a cs) (g : α → β) :
    Decodes charge (d >>= fun x => Pure.pure (g x)) xs (g a) cs :=
  hd.bind_last .pure

/-- A decoder that reads and charges nothing. -/
theorem Decodes.of_eq_pure (h : ∀ s, d s = .ok a s) : Decodes charge d [] a [] := by
  intro suffix r
  refine ⟨?_, ?_⟩
  · intro r' hr
    cases hr
    exact h _
  · intro e hr
    cases hr

theorem Decodes.split (short : ε) (bytes : List UInt8) :
    Decodes charge (split short bytes.length : Decoder ε ρ _) bytes bytes [] := by
  intro suffix r
  refine ⟨?_, ?_⟩
  · intro r' h
    cases h
    simp [Decoder.split]
  · intro e h
    cases h

/-- A decoder of a whole buffer need not look past it. -/
theorem DecodesTo.within (hd : DecodesTo charge [] d xs a cs) :
    Decodes charge (within xs d) [] a cs := by
  intro suffix r
  obtain ⟨hok, herr⟩ := hd r
  rw [List.append_nil] at hok herr
  refine ⟨?_, ?_⟩
  · intro r' h
    simp only [Decoder.within, hok r' h, List.nil_append]
  · intro e h
    obtain ⟨t, ht⟩ := herr e h
    exact ⟨⟨suffix, t.state⟩, by simp only [Decoder.within, ht, List.nil_append]⟩

theorem Decodes.draw {c : κ} {g : ρ → Except ε ρ} (h : ∀ r, g r = charge c r) :
    Decodes charge (draw g) [] () [c] := by
  intro suffix r
  simp only [Decoder.draw, h, spend, List.nil_append]
  cases charge c r with
  | ok r' =>
      refine ⟨?_, ?_⟩
      · intro r'' hr
        cases hr
        rfl
      · intro e hr
        cases hr
  | error e =>
      refine ⟨?_, ?_⟩
      · intro r'' hr
        cases hr
      · intro e' hr
        cases hr
        exact ⟨_, rfl⟩

end RoundTrip

section Frugal

variable (forbidden : ε → Prop) (weight : ρ → Nat)

/-- From `s` to `t` either nothing was read and no weight added, or less weight
was added than bytes were read. -/
def Spends (s t : Reader ρ) : Prop :=
  (t.bytes.length = s.bytes.length ∧ weight t.state = weight s.state) ∨
  (t.bytes.length < s.bytes.length ∧
    t.bytes.length + weight t.state < s.bytes.length + weight s.state)

def Frugal (d : Decoder ε ρ α) : Prop :=
  ∀ s, match d s with
    | .ok _ t => Spends weight s t
    | .error e t => ¬ forbidden e ∧ Spends weight s t

/-- From `s` to `t` at most as much weight was added as bytes were read. -/
def Keeps (s t : Reader ρ) : Prop :=
  t.bytes.length ≤ s.bytes.length ∧
    t.bytes.length + weight t.state ≤ s.bytes.length + weight s.state

def Thrifty (d : Decoder ε ρ α) : Prop :=
  ∀ s, match d s with
    | .ok _ t => Keeps weight s t
    | .error e t => ¬ forbidden e ∧ Keeps weight s t

variable {forbidden weight} {d : Decoder ε ρ α}

theorem Spends.refl (s : Reader ρ) : Spends weight s s := .inl ⟨rfl, rfl⟩

theorem Spends.trans {s t u : Reader ρ} (h : Spends weight s t) (h' : Spends weight t u) :
    Spends weight s u := by
  unfold Spends at h h' ⊢
  omega

theorem Spends.le {s t : Reader ρ} (h : Spends weight s t) :
    t.bytes.length + weight t.state ≤ s.bytes.length + weight s.state := by
  unfold Spends at h
  omega

theorem Frugal.pure (a : α) : Frugal forbidden weight (pure a : Decoder ε ρ α) :=
  fun s => .refl s

theorem Frugal.throw {e : ε} (he : ¬ forbidden e) :
    Frugal forbidden weight (throw e : Decoder ε ρ α) :=
  fun s => ⟨he, .refl s⟩

/-- A sequence of frugal decoders is frugal. -/
theorem Frugal.bind {f : α → Decoder ε ρ β} (hd : Frugal forbidden weight d)
    (hf : ∀ a, Frugal forbidden weight (f a)) : Frugal forbidden weight (d >>= f) := by
  intro s
  have hs := hd s
  rw [bind_apply]
  cases h : d s with
  | ok a t =>
      rw [h] at hs
      have ht := hf a t
      cases h' : f a t with
      | ok b u =>
          simp only [h'] at ht ⊢
          exact Spends.trans hs ht
      | error e u =>
          simp only [h'] at ht ⊢
          exact ⟨ht.1, Spends.trans hs ht.2⟩
  | error e t =>
      rw [h] at hs
      exact hs

theorem Frugal.remaining : Frugal forbidden weight (remaining : Decoder ε ρ Nat) :=
  fun s => .refl s

/-- A decoder that reads at least a byte whenever it returns. -/
def Consumes (d : Decoder ε ρ α) : Prop :=
  ∀ s a t, d s = .ok a t → t.bytes.length < s.bytes.length

theorem Spends.keeps {s t : Reader ρ} (h : Spends weight s t) : Keeps weight s t := by
  unfold Spends at h
  unfold Keeps
  omega

theorem Keeps.trans {s t u : Reader ρ} (h : Keeps weight s t) (h' : Keeps weight t u) :
    Keeps weight s u := by
  unfold Keeps at h h' ⊢
  omega

theorem Frugal.thrifty (hd : Frugal forbidden weight d) : Thrifty forbidden weight d := by
  intro s
  have hs := hd s
  cases h : d s with
  | ok a t =>
      simp only [h] at hs ⊢
      exact Spends.keeps hs
  | error e t =>
      simp only [h] at hs ⊢
      exact ⟨hs.1, Spends.keeps hs.2⟩

theorem Thrifty.bind {f : α → Decoder ε ρ β} (hd : Thrifty forbidden weight d)
    (hf : ∀ a, Thrifty forbidden weight (f a)) : Thrifty forbidden weight (d >>= f) := by
  intro s
  have hs := hd s
  rw [bind_apply]
  cases h : d s with
  | ok a t =>
      rw [h] at hs
      have ht := hf a t
      cases h' : f a t with
      | ok b u =>
          simp only [h'] at ht ⊢
          exact Keeps.trans hs ht
      | error e u =>
          simp only [h'] at ht ⊢
          exact ⟨ht.1, Keeps.trans hs ht.2⟩
  | error e t =>
      rw [h] at hs
      exact hs

/-- A decoder that reads something first may break even afterwards. -/
theorem Frugal.bind_thrifty {f : α → Decoder ε ρ β} (hd : Frugal forbidden weight d)
    (hc : Consumes d) (hf : ∀ a, Thrifty forbidden weight (f a)) :
    Frugal forbidden weight (d >>= f) := by
  intro s
  have hs := hd s
  rw [bind_apply]
  cases h : d s with
  | ok a t =>
      rw [h] at hs
      have hlt := hc s a t h
      have ht := hf a t
      have strict : ∀ u, Keeps weight t u → Spends weight s u := by
        intro u hu
        simp only [Spends, Keeps] at hs hu ⊢
        omega
      cases h' : f a t with
      | ok b u =>
          simp only [h'] at ht ⊢
          exact strict u ht
      | error e u =>
          simp only [h'] at ht ⊢
          exact ⟨ht.1, strict u ht.2⟩
  | error e t =>
      rw [h] at hs
      exact hs

/-- Reading something pays for one more unit of weight. -/
theorem Frugal.bind_counted {f : α → Decoder ε ρ β} (hd : Frugal forbidden weight d)
    (hc : Consumes d)
    (hf : ∀ a s, match f a s with
      | .ok _ t => t.bytes = s.bytes ∧ weight t.state ≤ weight s.state + 1
      | .error e t => ¬ forbidden e ∧ t.bytes = s.bytes ∧
          weight t.state ≤ weight s.state + 1) :
    Thrifty forbidden weight (d >>= f) := by
  intro s
  have hs := hd s
  rw [bind_apply]
  cases h : d s with
  | ok a t =>
      rw [h] at hs
      have hlt := hc s a t h
      have ht := hf a t
      have paid : ∀ u : Reader ρ, u.bytes = t.bytes → weight u.state ≤ weight t.state + 1 →
          Keeps weight s u := by
        intro u hb hw
        simp only [Spends, Keeps] at hs ⊢
        rw [hb]
        omega
      cases h' : f a t with
      | ok b u =>
          simp only [h'] at ht ⊢
          exact paid u ht.1 ht.2
      | error e u =>
          simp only [h'] at ht ⊢
          exact ⟨ht.1, paid u ht.2.1 ht.2.2⟩
  | error e t =>
      simp only [h] at hs ⊢
      exact ⟨hs.1, Spends.keeps hs.2⟩

theorem Consumes.bind_left {f : α → Decoder ε ρ β} (hd : Consumes d)
    (hf : ∀ a s b t, f a s = .ok b t → t.bytes.length ≤ s.bytes.length) :
    Consumes (d >>= f) := by
  intro s b u h
  obtain ⟨a, t, hs, ht⟩ := bind_eq_ok.mp h
  exact Nat.lt_of_le_of_lt (hf a t b u ht) (hd s a t hs)

end Frugal

end Decoder
end Library
