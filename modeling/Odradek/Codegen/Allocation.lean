import Odradek.Codegen.Preservation
import Odradek.Codegen.TaggedLaws

/-!
What the emitted decode charges for a message it reads back: one vector for each
array and each tagged section, as it grows. The charges are a function of the
value, struct by struct as the decode goes through it.
-/

namespace Odradek.Codegen

open Library Library.Decoder Protocol

section Definitions

variable (sizeOf : SizeOf) (call : String → Value → List Charge)

def elementCharges : FieldType → Value → List Charge
  | .struct name => call name
  | _ => fun _ => []

def valueCharges : FieldType → Value → List Charge
  | .struct name => call name
  | .array elem => arrayCharges (sizeOf elem) (elementCharges call elem)
  | _ => fun _ => []

def fieldCharges (f : Field) : Value → List Charge :=
  if f.nullable.isSome then someCharges (valueCharges sizeOf call f.ftype)
  else valueCharges sizeOf call f.ftype

variable (msg : Message) (version : Int16)

def wireCharges (f : Field) : Value → List Charge :=
  if f.versions.Contains version then fieldCharges sizeOf call f else fun _ => []

/-- The fields on the wire, and the section of a flexible version. -/
def defCharges (d : StructDef) : Value → List Charge
  | .struct wire tagged unknown =>
    (List.zipWith (wireCharges sizeOf call version) d.wireFields wire).flatten ++
      if msg.isFlexible version then
        tagsCharges (fun f => f.tag.getD 0) (fun f => f.versions.Contains version)
          (fieldCharges sizeOf call) d.taggedFields (tagged, unknown)
      else []
  | _ => []

def Message.charges : (depth : Nat) → (name : String) → Value → List Charge
  | 0, _, _ => []
  | depth + 1, name, v =>
    match msg.find name with
    | some d => defCharges sizeOf (Message.charges depth) msg version d v
    | none => []

end Definitions

section Fields

variable {flexible allowed : Bool} {sizeOf : SizeOf} {codecs : String → WireCodec Value}
  {call : String → Value → List Charge} (hcall : ∀ name, ChargesWire (codecs name) (call name))

theorem elementCodec_wide (elem : FieldType) : Wide (elementCodec flexible codecs elem) := by
  have hleaf := (leafCodec_flat flexible elem).wide
  cases elem with
  | struct name => exact fun _ hv => hv.2
  | bytes | records | array elem => exact nowhere_flat.wide
  | _ => exact hleaf

theorem someCharges_nil (v : Value) : [] = someCharges (fun _ => []) v := by
  cases v <;> rfl

include hcall

theorem elementCodec_charges (elem : FieldType) :
    ChargesWire (elementCodec flexible codecs elem) (elementCharges call elem) := by
  have hleaf := (leafCodec_flat flexible elem).free
  cases elem with
  | struct name => exact wide_charges (hcall name)
  | bytes | records | array elem => exact nowhere_flat.free
  | _ => exact hleaf

theorem valueCodec_charges (ftype : FieldType) :
    ChargesWire (valueCodec flexible sizeOf codecs ftype) (valueCharges sizeOf call ftype) := by
  have hleaf := (leafCodec_flat flexible ftype).free
  cases ftype with
  | struct name => exact hcall name
  | array elem => exact counted_charges (elementCodec_charges hcall elem) (elementCodec_wide elem)
  | _ => exact hleaf

theorem nullableCodec_charges (field : String) (ftype : FieldType) :
    ChargesWire (nullableCodec flexible allowed sizeOf codecs field ftype)
      (someCharges (valueCharges sizeOf call ftype)) := by
  have hnull {c : WireCodec Value} (h : Flat c) :
      ChargesWire (nullable allowed field c) (someCharges fun _ => []) :=
    (nullable_charges h.free).congr fun v _ => someCharges_nil v
  cases ftype with
  | string =>
      cases flexible with
      | false => exact hnull nullableString_flat
      | true => exact hnull compactNullableString_flat
  | bytes =>
      cases flexible with
      | false => exact hnull (nullableBytes_flat fun _ => holds_bytes)
      | true => exact hnull (compactNullableBytes_flat fun _ => holds_bytes)
  | records =>
      cases flexible with
      | false => exact hnull (nullableBytes_flat fun _ => holds_records)
      | true => exact hnull (compactNullableBytes_flat fun _ => holds_records)
  | struct name => exact marked_charges (hcall name)
  | array elem =>
      exact nullableCounted_charges (elementCodec_charges hcall elem) (elementCodec_wide elem)
  | _ => exact .failing

variable {msg : Message} {version : Int16}

theorem fieldCodec_charges (f : Field) :
    ChargesWire (fieldCodec msg version sizeOf codecs f) (fieldCharges sizeOf call f) := by
  unfold fieldCodec fieldCharges
  cases f.nullable with
  | none => exact valueCodec_charges hcall f.ftype
  | some range => exact nullableCodec_charges hcall f.name f.ftype

theorem wireCodec_charges (f : Field) (default : Value) :
    ChargesWire (wireCodec msg version sizeOf codecs f default)
      (wireCharges sizeOf call version f) := by
  unfold wireCodec wireCharges
  split
  · exact fieldCodec_charges hcall f
  · exact .absent default

theorem wireCodecs_charges {fs : List Field} {defaults : List Value}
    (hlen : defaults.length = fs.length) :
    List.Forall₂ (fun c g => ChargesWire c g)
      (List.zipWith (wireCodec msg version sizeOf codecs) fs defaults)
      (fs.map (wireCharges sizeOf call version)) := by
  induction fs generalizing defaults with
  | nil => exact .nil
  | cons f fs ih =>
      obtain _ | ⟨dflt, defaults⟩ := defaults
      · cases hlen
      · exact .cons (wireCodec_charges hcall f dflt) (ih (Nat.succ.inj hlen))

theorem defCodec_charges {d : StructDef} {defaults : List Value}
    (hapart : msg.isFlexible version = true → d.TagsApart version)
    (hlen : defaults.length = d.wireFields.length) :
    ChargesWire (defCodec msg version sizeOf codecs d defaults)
      (defCharges sizeOf call msg version d) := by
  have hsection : ChargesWire
      (if msg.isFlexible version then
        sectionCodec (d.taggedFields.map (knownTag msg version sizeOf codecs))
      else .absent (noTags (d.taggedFields.map (knownTag msg version sizeOf codecs)), []))
      (if msg.isFlexible version then
        tagsCharges (fun f => f.tag.getD 0) (fun f => f.versions.Contains version)
          (fieldCharges sizeOf call) d.taggedFields
      else fun _ => []) := by
    cases hflexible : msg.isFlexible version with
    | true =>
        exact section_charges (fun f _ => fieldCodec_charges hcall f)
          (tagsApart_knownTags (hapart hflexible))
    | false => exact .absent _
  have hparts : ∀ parts : List Value × List Value × List RawTaggedField,
      Value.parts (.struct parts.1 parts.2.1 parts.2.2) = some parts := fun _ => rfl
  refine (((Codec.Charges.each (wireCodecs_charges hcall hlen)).pair hsection).embed
    hparts).congr ?_
  rintro _ ⟨⟨wire, tagged, unknown⟩, rfl, _⟩
  simp only [Value.parts, defCharges, List.zipWith_map_left]
  cases msg.isFlexible version <;> rfl

end Fields

section Messages

variable {parseF64 : ParseF64} {msg : Message} {version : Int16} {sizeOf : SizeOf}

/-- By induction on the depth of structs in structs. -/
theorem Message.codec_charges (hapart : msg.TagsApart version) (depth : Nat) (name : String) :
    ChargesWire (msg.codec parseF64 version sizeOf depth name)
      (Message.charges sizeOf msg version depth name) := by
  induction depth generalizing name with
  | zero => exact .failing
  | succ depth ih =>
      unfold Message.codec
      split
      · rename_i d defaults _ _ hd hdefault
        obtain ⟨d', dflts, tagged, unknown, hd', heq, hlen⟩ := default_shape hdefault
        rw [hd] at hd'
        cases hd'
        cases heq
        have hdef : ChargesWire
            (defCodec msg version sizeOf (msg.codec parseF64 version sizeOf depth) d defaults)
            (defCharges sizeOf (Message.charges sizeOf msg version depth) msg version d) :=
          defCodec_charges ih (fun h => hapart h d (List.mem_of_find?_eq_some hd)) hlen
        refine hdef.congr fun v _ => ?_
        rw [Message.charges, hd]
      · exact .failing

end Messages

end Odradek.Codegen
