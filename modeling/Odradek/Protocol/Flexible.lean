import Mathlib.Data.List.Sort
import Odradek.Library.Results
import Odradek.Protocol.WireRoundTrip

/-!
What generated messages are put together from: strings and arrays in the classic
or the compact layout, and known tagged fields, each read from the data of its
own tag, which it has to use up.
-/

namespace Odradek.Protocol

open Library Library.Decoder

section Codecs

variable {α : Type}

def putFlexString (flexible : Bool) (value : String) : Except EncodeError Bytes :=
  if flexible then .ok (putCompactString value) else putString value

def getFlexString (flexible : Bool) : Decode String :=
  if flexible then getCompactString else getString

def putItems (put : α → Except EncodeError Bytes) : List α → Except EncodeError Bytes
  | [] => .ok []
  | item :: rest => do
    let bytes ← put item
    let more ← putItems put rest
    pure (bytes ++ more)

def putFlexLen (flexible : Bool) (len : Option Nat) : Except EncodeError Bytes :=
  if flexible then .ok (putCompactArrayLen len) else putArrayLen len

def getFlexLen (flexible : Bool) : Decode (Option Nat) :=
  if flexible then getCompactArrayLen else getArrayLen

def putFlexArray (flexible : Bool) (put : α → Except EncodeError Bytes) (items : List α) :
    Except EncodeError Bytes := do
  let len ← putFlexLen flexible (some items.length)
  let bytes ← putItems put items
  pure (len ++ bytes)

/-- An array that must not be null. -/
def getFlexArray (flexible : Bool) (elem : Nat) (item : Decode α) : Decode (List α) := do
  let len ← getFlexLen flexible
  let count ← notNull len
  let items ← getItems elem item count (Vec.new elem)
  pure items.items

/-- A known tagged field, absent when it is `None`. -/
def putKnown (tag : Nat) (put : α → Except EncodeError Bytes) :
    Option α → Except EncodeError (List RawTaggedField)
  | none => .ok []
  | some value => do
    let data ← put value
    pure [{ tag, data }]

/-- Nothing may be left of a known tag's data. -/
def usedUp (value : α) : Decode α := do
  let left ← remaining
  failIf (left ≠ 0) (.invalidLength (min left i64Max))
  pure value

def getKnown (d : Decode α) (data : Bytes) : Decode α := within data (d >>= usedUp)

def sortByTag (fields : List RawTaggedField) : List RawTaggedField :=
  fields.insertionSort fun a b => a.tag ≤ b.tag

end Codecs

section RoundTrip

variable {α : Type} {flexible : Bool} {item d : Decode α}
  {put : α → Except EncodeError Bytes} {bytes : Bytes} {items : List α}

theorem getFlexString_reads {value : String} (h : putFlexString flexible value = .ok bytes)
    (hlen : (utf8 value).length < i64Max) : Reads (getFlexString flexible) bytes value := by
  cases flexible with
  | true =>
      cases h
      exact getCompactString_reads hlen
  | false => exact getString_reads h

theorem getFlexLen_reads {len : Option Nat} (h : putFlexLen flexible len = .ok bytes)
    (hlen : ∀ n, len = some n → n < i64Max) : Reads (getFlexLen flexible) bytes len := by
  cases flexible with
  | true =>
      cases h
      exact getCompactArrayLen_reads hlen
  | false => exact getArrayLen_reads h

def written (put : α → Except EncodeError Bytes) (value : α) : Bytes :=
  match put value with
  | .ok bytes => bytes
  | .error _ => []

theorem written_eq {value : α} (h : put value = .ok bytes) : written put value = bytes := by
  rw [written, h]

theorem putItems_written (h : putItems put items = .ok bytes) :
    bytes = items.flatMap (written put) ∧ ∀ a ∈ items, put a = .ok (written put a) := by
  induction items generalizing bytes with
  | nil =>
      cases h
      exact ⟨rfl, fun _ hmem => absurd hmem List.not_mem_nil⟩
  | cons a items ih =>
      obtain ⟨first, hfirst, h⟩ := except_bind_eq_ok.mp h
      obtain ⟨rest, hrest, h⟩ := except_bind_eq_ok.mp h
      cases h
      obtain ⟨rfl, hall⟩ := ih hrest
      rw [List.flatMap_cons, written_eq hfirst, List.forall_mem_cons, written_eq hfirst]
      exact ⟨rfl, hfirst, hall⟩

theorem putFlexArray_ok (h : putFlexArray flexible put items = .ok bytes) :
    ∃ len, putFlexLen flexible (some items.length) = .ok len ∧
      bytes = len ++ items.flatMap (written put) ∧ ∀ a ∈ items, put a = .ok (written put a) := by
  obtain ⟨len, hlen, h⟩ := except_bind_eq_ok.mp h
  obtain ⟨more, hmore, h⟩ := except_bind_eq_ok.mp h
  cases h
  obtain ⟨rfl, hall⟩ := putItems_written hmore
  exact ⟨len, hlen, rfl, hall⟩

theorem getFlexArray_decodes (elem : Nat) {charges : α → List Charge}
    (h : putFlexArray flexible put items = .ok bytes) (hlen : items.length < i64Max)
    (hitem : ∀ a ∈ items, ∀ out, put a = .ok out →
      Decodes Ledger.charge item out a (charges a)) :
    Decodes Ledger.charge (getFlexArray flexible elem item) bytes items
      (itemsCharges elem charges items 0) := by
  obtain ⟨len, hput, rfl, hall⟩ := putFlexArray_ok h
  have hsome : ∀ n, some items.length = some n → n < i64Max := by
    rintro _ ⟨⟩
    exact hlen
  have hitems := getItems_decodes items (Vec.new elem) .new
    fun a ha => hitem a ha _ (hall a ha)
  have hread : Decodes Ledger.charge (notNull (some items.length)) [] items.length [] := .pure
  exact (getFlexLen_reads hput hsome).bind_free (hread.bind_look (hitems.bind_pure Vec.items))

/-- The data of a known tag, read in full. -/
theorem getKnown_decodes {a : α} {cs : List Charge} (h : Decodes Ledger.charge d bytes a cs) :
    Decodes Ledger.charge (getKnown d bytes) [] a cs := by
  refine DecodesTo.within ?_
  have hrest : DecodesTo Ledger.charge [] (usedUp a) [] a [] := by
    intro r
    refine ⟨?_, ?_⟩
    · rintro _ ⟨⟩
      rfl
    · rintro _ ⟨⟩
  have hboth := h.before hrest
  rwa [List.append_nil, List.append_nil] at hboth

end RoundTrip

end Odradek.Protocol
