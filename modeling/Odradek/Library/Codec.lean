import Odradek.Library.Decoder
import Odradek.Library.Results

/-!
Codecs: a writer that may refuse, the reader of what it writes, and the values
the two agree on. A lawful codec reads back what it wrote, whatever follows, and
settles: a value that was read, from whatever spelling, can be written again, in
no more bytes than it came in. Codecs made of lawful ones are lawful, and what
reading back charges is put together as the codecs are.
-/

namespace Library

open Decoder

structure Codec (ε η ρ α : Type) where
  put : α → Except η (List UInt8)
  get : Decoder ε ρ α
  Domain : α → Prop

namespace Codec

variable {ε η ρ κ α β : Type}

/-- What was read between `s` and `t` is written again in no more bytes, and in
none only if none were read. -/
def Rewrites (c : Codec ε η ρ α) (s t : Reader ρ) (a : α) : Prop :=
  ∃ used bytes, s.bytes = used ++ t.bytes ∧ c.put a = .ok bytes ∧
    bytes.length ≤ used.length ∧ (bytes = [] → used = [])

/-- `capacity` is the most bytes a buffer holds; a writer may refuse a value of
the domain for the reasons in `refusal` alone. -/
structure Lawful (charge : κ → ρ → Except ε ρ) (capacity : Nat) (refusal : η → Prop)
    (c : Codec ε η ρ α) : Prop where
  reads_back : ∀ a bytes, c.Domain a → c.put a = .ok bytes → bytes.length ≤ capacity →
    ∃ cs, Decodes charge c.get bytes a cs
  settles : ∀ s a t, c.get s = .ok a t → c.Domain a ∧ c.Rewrites s t a
  refuses : ∀ a e, c.Domain a → c.put a = .error e → refusal e

/-- Reading back a value of the domain makes the charges `f` has for it. -/
def Charges (charge : κ → ρ → Except ε ρ) (capacity : Nat) (c : Codec ε η ρ α)
    (f : α → List κ) : Prop :=
  ∀ a bytes, c.Domain a → c.put a = .ok bytes → bytes.length ≤ capacity →
    Decodes charge c.get bytes a (f a)

/-- Of no value. -/
def failing (mismatch : η) (fault : ε) : Codec ε η ρ α where
  put _ := .error mismatch
  get := throw fault
  Domain _ := False

def absent (a : α) : Codec ε η ρ α where
  put _ := .ok []
  get := pure a
  Domain b := b = a

def pair (c : Codec ε η ρ α) (d : Codec ε η ρ β) : Codec ε η ρ (α × β) where
  put ab := do
    let xs ← c.put ab.1
    let ys ← d.put ab.2
    pure (xs ++ ys)
  get := do
    let a ← c.get
    let b ← d.get
    pure (a, b)
  Domain ab := c.Domain ab.1 ∧ d.Domain ab.2

/-- Values that are carried inside others. -/
def embed (mismatch : η) (into : α → β) (back : β → Option α) (c : Codec ε η ρ α) :
    Codec ε η ρ β where
  put b := match back b with
    | some a => c.put a
    | none => .error mismatch
  get := do
    let a ← c.get
    pure (into a)
  Domain b := ∃ a, b = into a ∧ c.Domain a

/-- A list of values, each by the codec at its place. -/
def each (mismatch : η) : List (Codec ε η ρ α) → Codec ε η ρ (List α)
  | [] =>
    { put := fun
        | [] => .ok []
        | _ :: _ => .error mismatch
      get := pure []
      Domain := (· = []) }
  | c :: cs =>
    { put := fun
        | [] => .error mismatch
        | a :: as => do
          let xs ← c.put a
          let ys ← (each mismatch cs).put as
          pure (xs ++ ys)
      get := do
        let a ← c.get
        let as ← (each mismatch cs).get
        pure (a :: as)
      Domain := fun
        | [] => False
        | a :: as => c.Domain a ∧ (each mismatch cs).Domain as }

section Laws

variable {charge : κ → ρ → Except ε ρ} {capacity : Nat} {refusal : η → Prop}
  {c : Codec ε η ρ α} {d : Codec ε η ρ β} {mismatch : η} {fault : ε} {f : α → List κ}
  {g : β → List κ}

section Spelled

variable {xs ys : List UInt8} {a : α} {b : β} {as : List α} {cs ds : List κ}
  {rest : List (Codec ε η ρ α)}

/-- What two codecs read one after the other, in whatever spelling. -/
theorem pair_decodes (hc : Decodes charge c.get xs a cs) (hd : Decodes charge d.get ys b ds) :
    Decodes charge (pair c d).get (xs ++ ys) (a, b) (cs ++ ds) :=
  hc.bind (hd.bind_pure _)

theorem embed_decodes {into : α → β} {back : β → Option α} (hc : Decodes charge c.get xs a cs) :
    Decodes charge (embed mismatch into back c).get xs (into a) cs :=
  hc.bind_pure into

theorem each_nil_decodes :
    Decodes charge (each mismatch ([] : List (Codec ε η ρ α))).get [] [] [] :=
  .pure

theorem each_cons_decodes (hc : Decodes charge c.get xs a cs)
    (hrest : Decodes charge (each mismatch rest).get ys as ds) :
    Decodes charge (each mismatch (c :: rest)).get (xs ++ ys) (a :: as) (cs ++ ds) :=
  hc.bind (hrest.bind_pure _)

end Spelled

section Charged

theorem Charges.reads_back (h : Charges charge capacity c f) :
    ∀ a bytes, c.Domain a → c.put a = .ok bytes → bytes.length ≤ capacity →
      ∃ cs, Decodes charge c.get bytes a cs :=
  fun a bytes hdom hput hcap => ⟨f a, h a bytes hdom hput hcap⟩

/-- A value is written in one way, so that what reading it back charges is its own. -/
theorem Lawful.charges (h : Lawful charge capacity refusal c) :
    ∃ f, Charges charge capacity c f := by
  have hown : ∀ a, ∃ cs, ∀ bytes, c.Domain a → c.put a = .ok bytes → bytes.length ≤ capacity →
      Decodes charge c.get bytes a cs := by
    intro a
    by_cases hread : ∃ bytes, c.Domain a ∧ c.put a = .ok bytes ∧ bytes.length ≤ capacity
    · obtain ⟨bytes, hdom, hput, hcap⟩ := hread
      obtain ⟨cs, hcs⟩ := h.reads_back a bytes hdom hput hcap
      refine ⟨cs, fun other _ hother _ => ?_⟩
      rw [hput] at hother
      cases hother
      exact hcs
    · exact ⟨[], fun bytes hdom hput hcap => absurd ⟨bytes, hdom, hput, hcap⟩ hread⟩
  choose f hf using hown
  exact ⟨f, hf⟩

theorem Charges.congr {f' : α → List κ} (h : Charges charge capacity c f)
    (heq : ∀ a, c.Domain a → f a = f' a) : Charges charge capacity c f' := by
  intro a bytes hdom hput hcap
  rw [← heq a hdom]
  exact h a bytes hdom hput hcap

theorem Charges.failing : Charges charge capacity (failing mismatch fault : Codec ε η ρ α) f :=
  fun _ _ h => h.elim

theorem Charges.absent (a : α) :
    Charges charge capacity (absent a : Codec ε η ρ α) fun _ => [] := by
  rintro _ _ rfl hput _
  cases hput
  exact .pure

theorem Charges.pair (hc : Charges charge capacity c f) (hd : Charges charge capacity d g) :
    Charges charge capacity (pair c d) fun ab => f ab.1 ++ g ab.2 := by
  rintro ⟨a, b⟩ bytes ⟨ha, hb⟩ hput hcap
  obtain ⟨xs, hxs, hput⟩ := except_bind_eq_ok.mp hput
  obtain ⟨ys, hys, hput⟩ := except_bind_eq_ok.mp hput
  cases hput
  rw [List.length_append] at hcap
  exact pair_decodes (hc a xs ha hxs (by omega)) (hd b ys hb hys (by omega))

theorem Charges.embed {into : α → β} {back : β → Option α} (hback : ∀ a, back (into a) = some a)
    (hc : Charges charge capacity c f) :
    Charges charge capacity (embed mismatch into back c) fun b =>
      match back b with
      | some a => f a
      | none => [] := by
  rintro _ bytes ⟨a, rfl, ha⟩ hput hcap
  simp only [Codec.embed, hback] at hput
  simp only [hback]
  exact embed_decodes (hc a bytes ha hput hcap)

/-- By induction on the codecs. -/
theorem Charges.each {cs : List (Codec ε η ρ α)} {fs : List (α → List κ)}
    (h : List.Forall₂ (fun c f => Charges charge capacity c f) cs fs) :
    Charges charge capacity (each mismatch cs) fun as =>
      (List.zipWith (fun f a => f a) fs as).flatten := by
  induction h with
  | nil =>
      rintro _ bytes rfl hput _
      cases hput
      exact .pure
  | cons hc _ ih =>
      rintro (_ | ⟨a, as⟩) bytes hdom hput hcap
      · exact hdom.elim
      · obtain ⟨xs, hxs, hput⟩ := except_bind_eq_ok.mp hput
        obtain ⟨ys, hys, hput⟩ := except_bind_eq_ok.mp hput
        cases hput
        rw [List.length_append] at hcap
        exact each_cons_decodes (hc a xs hdom.1 hxs (by omega)) (ih as ys hdom.2 hys (by omega))

end Charged

theorem Rewrites.of_pure {s : Reader ρ} {a : α} (h : c.put a = .ok []) : c.Rewrites s s a :=
  ⟨[], [], rfl, h, Nat.le_refl _, fun _ => rfl⟩

/-- What two codecs wrote again, one after the other. -/
theorem Rewrites.append {s t u : Reader ρ} {a : α} {b : β} (hc : c.Rewrites s t a)
    (hd : d.Rewrites t u b) :
    ∃ used xs ys, s.bytes = used ++ u.bytes ∧ c.put a = .ok xs ∧ d.put b = .ok ys ∧
      (xs ++ ys).length ≤ used.length ∧ (xs ++ ys = [] → used = []) := by
  obtain ⟨used, xs, hused, hxs, hle, hnil⟩ := hc
  obtain ⟨used', ys, hused', hys, hle', hnil'⟩ := hd
  refine ⟨used ++ used', xs, ys, ?_, hxs, hys, ?_, ?_⟩
  · rw [hused, hused', List.append_assoc]
  · simp only [List.length_append]
    omega
  · intro h
    obtain ⟨hx, hy⟩ := List.append_eq_nil_iff.mp h
    rw [hnil hx, hnil' hy, List.append_nil]

theorem Lawful.failing : Lawful charge capacity refusal (failing mismatch fault : Codec ε η ρ α) :=
  { reads_back := (Charges.failing (f := fun _ => [])).reads_back
    settles := fun _ _ _ h => nomatch h
    refuses := fun _ _ h => h.elim }

theorem Lawful.absent (a : α) : Lawful charge capacity refusal (absent a : Codec ε η ρ α) :=
  { reads_back := (Charges.absent a).reads_back
    settles := by
      intro s b t h
      cases h
      exact ⟨rfl, .of_pure rfl⟩
    refuses := fun _ _ _ h => nomatch h }

/-- Two lawful codecs make a lawful pair. -/
theorem Lawful.pair (hc : Lawful charge capacity refusal c)
    (hd : Lawful charge capacity refusal d) : Lawful charge capacity refusal (pair c d) :=
  { reads_back := by
      obtain ⟨f, hf⟩ := hc.charges
      obtain ⟨g, hg⟩ := hd.charges
      exact (hf.pair hg).reads_back
    settles := by
      intro s ab u h
      obtain ⟨a, t, ha, h⟩ := bind_eq_ok.mp h
      obtain ⟨b, t', hb, h⟩ := bind_eq_ok.mp h
      cases h
      obtain ⟨hdom, hfirst⟩ := hc.settles s a t ha
      obtain ⟨hdom', hsecond⟩ := hd.settles t b u hb
      obtain ⟨used, xs, ys, hused, hxs, hys, hle, hnil⟩ := hfirst.append hsecond
      refine ⟨⟨hdom, hdom'⟩, used, xs ++ ys, hused, ?_, hle, hnil⟩
      simp only [Codec.pair, hxs, hys]
      rfl
    refuses := by
      rintro ⟨a, b⟩ e ⟨ha, hb⟩ hput
      simp only [Codec.pair] at hput ha hb
      cases hx : c.put a with
      | error e' =>
          rw [hx] at hput
          cases hput
          exact hc.refuses a e ha hx
      | ok xs =>
          cases hy : d.put b with
          | error e' =>
              rw [hx, hy] at hput
              cases hput
              exact hd.refuses b e hb hy
          | ok ys =>
              rw [hx, hy] at hput
              cases hput }

theorem Lawful.embed {into : α → β} {back : β → Option α} (hback : ∀ a, back (into a) = some a)
    (hc : Lawful charge capacity refusal c) :
    Lawful charge capacity refusal (embed mismatch into back c) :=
  { reads_back := by
      obtain ⟨f, hf⟩ := hc.charges
      exact (hf.embed hback).reads_back
    settles := by
      intro s b t h
      obtain ⟨a, t', ha, h⟩ := bind_eq_ok.mp h
      cases h
      obtain ⟨hdom, used, bytes, hused, hput, hle, hnil⟩ := hc.settles s a t ha
      refine ⟨⟨a, rfl, hdom⟩, used, bytes, hused, ?_, hle, hnil⟩
      simp only [Codec.embed, hback, hput]
    refuses := by
      rintro _ e ⟨a, rfl, ha⟩ hput
      simp only [Codec.embed, hback] at hput
      exact hc.refuses a e ha hput }

/-- By induction on the codecs, each step a pair. -/
theorem Lawful.each {cs : List (Codec ε η ρ α)}
    (h : ∀ c ∈ cs, Lawful charge capacity refusal c) :
    Lawful charge capacity refusal (each mismatch cs) := by
  induction cs with
  | nil =>
      refine ⟨?_, ?_, ?_⟩
      · rintro _ bytes rfl hput _
        cases hput
        exact ⟨[], each_nil_decodes⟩
      · intro s as t h
        cases h
        exact ⟨rfl, .of_pure rfl⟩
      · rintro _ e rfl hput
        cases hput
  | cons c cs ih =>
      have hall := ih fun d hd => h d (List.mem_cons_of_mem _ hd)
      have hpair := (h c List.mem_cons_self).pair hall
      refine ⟨?_, ?_, ?_⟩
      · rintro (_ | ⟨a, as⟩) bytes hdom hput hcap
        · exact hdom.elim
        · obtain ⟨xs, hxs, hput⟩ := except_bind_eq_ok.mp hput
          obtain ⟨ys, hys, hput⟩ := except_bind_eq_ok.mp hput
          cases hput
          rw [List.length_append] at hcap
          obtain ⟨charges, hfirst⟩ := (h c List.mem_cons_self).reads_back a xs hdom.1 hxs (by omega)
          obtain ⟨more, hrest⟩ := hall.reads_back as ys hdom.2 hys (by omega)
          exact ⟨charges ++ more, each_cons_decodes hfirst hrest⟩
      · intro s as u h
        obtain ⟨a, t, ha, h⟩ := bind_eq_ok.mp h
        obtain ⟨as', t', has, h⟩ := bind_eq_ok.mp h
        cases h
        have hget : (Codec.pair c (Codec.each mismatch cs)).get s = .ok (a, as') u :=
          bind_eq_ok.mpr ⟨a, t, ha, bind_eq_ok.mpr ⟨as', u, has, rfl⟩⟩
        exact hpair.settles s (a, as') u hget
      · rintro (_ | ⟨a, as⟩) e hdom hput
        · exact hdom.elim
        · exact hpair.refuses (a, as) e hdom hput

end Laws

end Codec
end Library
