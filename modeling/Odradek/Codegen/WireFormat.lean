import Odradek.Codegen.EmittedCode
import Odradek.Library.Codec
import Odradek.Protocol.KnownTags

/-!
What a schema means at a version, apart from any code: each field is in the
classic or the compact layout, may be null or not, is on the wire or at its
default. A struct is its fields one after the other and, where the message is
flexible, the section of its tagged fields.
-/

namespace Odradek.Codegen

open Library Library.Decoder Protocol

abbrev WireCodec (α : Type) := Codec Halt EncodeHalt Ledger α

/-- The values of a type that holds no others. -/
def FieldType.Holds : FieldType → Value → Prop
  | .bool, .bool _ | .int8, .int8 _ | .int16, .int16 _ | .uint16, .uint16 _ | .int32, .int32 _
  | .uint32, .uint32 _ | .int64, .int64 _ | .float64, .float64 _ | .string, .string _
  | .bytes, .bytes _ | .records, .bytes _ => True
  | .uuid, .uuid data => data.length = uuidLen
  | _, _ => False

def FieldType.MayHold (ftype : FieldType) : Value → Prop
  | .some v => ftype.Holds v
  | .none => True
  | _ => False

section Fields

/-- A value, as one call writes it and one reads it. -/
def leaf (p : Put) (g : Get) (domain : Value → Prop) : WireCodec Value where
  put := p.run
  get := g.run
  Domain := domain

def required (p : Put) (g : Get) (domain : Value → Prop) : WireCodec Value where
  put := p.run
  get := do
    let raw ← g.run
    unwrapped raw
  Domain := domain

/-- A value that is null only where that is allowed. -/
def nullable (allowed : Bool) (field : String) (c : WireCodec Value) : WireCodec Value where
  put v := if v.isNone ∧ ¬ allowed then .error (.error (.nullField field)) else c.put v
  get := do
    let raw ← c.get
    if raw.isNone then nullWhere allowed else pure raw
  Domain v := c.Domain v ∧ (v.isNone → allowed)

/-- A struct behind its marker. -/
def marked (allowed : Bool) (field : String) (c : WireCodec Value) : WireCodec Value where
  put
    | .some v => do
      let bytes ← c.put v
      pure (putI8 1 ++ bytes)
    | .none => if allowed then .ok (putI8 (-1)) else .error (.error (.nullField field))
    | _ => .error .stuck
  get := do
    let marker ← getI8
    if marker < 0 then nullWhere allowed
    else
      let v ← c.get
      pure (.some v)
  Domain
    | .some v => c.Domain v
    | .none => allowed
    | _ => False

/-- An element that has to take up bytes. -/
def wide (c : WireCodec Value) : WireCodec Value where
  put := c.put
  get := progressing c.get
  Domain v := c.Domain v ∧ c.put v ≠ .ok []

def counted (len : LenCall) (size : Nat) (item : WireCodec Value) : WireCodec Value where
  put
    | .array vs => encodeArray len item.put vs
    | _ => .error .stuck
  get := do
    let len ← len.get
    match len with
    | some count => decodeArray size item.get count
    | none => fail (.invalidLength (-1))
  Domain
    | .array vs => ∀ v ∈ vs, item.Domain v
    | _ => False

def nullableCounted (allowed : Bool) (field : String) (len : LenCall) (size : Nat)
    (item : WireCodec Value) : WireCodec Value where
  put
    | .some (.array vs) => encodeArray len item.put vs
    | .none =>
      if allowed then attempt (len.put none) else .error (.error (.nullField field))
    | _ => .error .stuck
  get := do
    let len ← len.get
    match len with
    | some count => do
      let items ← decodeArray size item.get count
      pure (.some items)
    | none => nullWhere allowed
  Domain
    | .some (.array vs) => ∀ v ∈ vs, item.Domain v
    | .none => allowed
    | _ => False

def nowhere : WireCodec Value := .failing .stuck .panic

variable (flexible allowed : Bool) (sizeOf : SizeOf) (call : String → WireCodec Value)

def lenOf : LenCall := if flexible then .compact else .classic

def leafCodec (ftype : FieldType) : WireCodec Value :=
  match ftype with
  | .bool => leaf .bool .bool ftype.Holds
  | .int8 => leaf .i8 .i8 ftype.Holds
  | .int16 => leaf .i16 .i16 ftype.Holds
  | .uint16 => leaf .u16 .u16 ftype.Holds
  | .int32 => leaf .i32 .i32 ftype.Holds
  | .uint32 => leaf .u32 .u32 ftype.Holds
  | .int64 => leaf .i64 .i64 ftype.Holds
  | .float64 => leaf .f64 .f64 ftype.Holds
  | .uuid => leaf .uuid .uuid ftype.Holds
  | .string =>
    if flexible then leaf .compactString .compactString ftype.Holds
    else leaf .string .string ftype.Holds
  | .bytes | .records =>
    if flexible then required .compactBytes .compactNullableBytes ftype.Holds
    else required .bytes .nullableBytes ftype.Holds
  | .struct _ | .array _ => nowhere

def elementCodec (elem : FieldType) : WireCodec Value :=
  match elem with
  | .struct name => wide (call name)
  | .bytes | .records | .array _ => nowhere
  | elem => leafCodec flexible elem

def valueCodec (ftype : FieldType) : WireCodec Value :=
  match ftype with
  | .struct name => call name
  | .array elem => counted (lenOf flexible) (sizeOf elem) (elementCodec flexible call elem)
  | ftype => leafCodec flexible ftype

def nullableCodec (field : String) (ftype : FieldType) : WireCodec Value :=
  match ftype with
  | .string =>
    nullable allowed field
      (if flexible then leaf .compactNullableString .compactNullableString ftype.MayHold
        else leaf .nullableString .nullableString ftype.MayHold)
  | .bytes | .records =>
    nullable allowed field
      (if flexible then leaf .compactNullableBytes .compactNullableBytes ftype.MayHold
        else leaf .nullableBytes .nullableBytes ftype.MayHold)
  | .struct name => marked allowed field (call name)
  | .array elem =>
    nullableCounted allowed field (lenOf flexible) (sizeOf elem) (elementCodec flexible call elem)
  | _ => nowhere

end Fields

section Sections

/-- A tagged field at a version: whether its tag is known there, and its value. -/
structure KnownTag where
  tag : Nat
  known : Bool
  codec : WireCodec Value

def KnownTag.put (k : KnownTag) : Value → Encode (List RawTaggedField)
  | .none => .ok []
  | .some v =>
    if k.known then do
      let data ← k.codec.put v
      pure [{ tag := k.tag, data }]
    else .ok []
  | _ => .error .stuck

def putKnownTags : List KnownTag → List Value → Encode (List RawTaggedField)
  | [], [] => .ok []
  | k :: ks, v :: vs => do
    let field ← k.put v
    let rest ← putKnownTags ks vs
    pure (field ++ rest)
  | _, _ => .error .stuck

/-- The field a tag stands for, and its place. -/
def placeOf (tag : Nat) : List KnownTag → (place : Nat) → Option (Nat × KnownTag)
  | [], _ => none
  | k :: ks, place =>
    if tag = k.tag ∧ k.known = true then some (place, k) else placeOf tag ks (place + 1)

/-- Present only where its tag is known. -/
def KnownTag.Holds (k : KnownTag) : Value → Prop
  | .none => True
  | .some v => k.known ∧ k.codec.Domain v
  | _ => False

/-- Unknown tags ascend and are no known ones. -/
structure UnknownTags (ks : List KnownTag) (unknown : List RawTaggedField) : Prop where
  orderly : Orderly unknown
  unknown : ∀ raw ∈ unknown, placeOf raw.tag ks 0 = none

def noTags (ks : List KnownTag) : List Value := ks.map fun _ => .none

def sectionCodec (ks : List KnownTag) : WireCodec (List Value × List RawTaggedField) where
  put tags :=
    if ks = [] then .ok (putTaggedFields tags.2)
    else do
      let known ← putKnownTags ks tags.1
      pure (putTaggedFields (sortByTag (tags.2 ++ known)))
  get := do
    let raws ← getTaggedFields
    if ks = [] then pure ([], raws)
    else
      takeAllTagged (fun tag => (placeOf tag ks 0).map fun (place, k) => (place, k.codec.get)) raws
        (noTags ks) (Vec.new rawTaggedFieldSize)
  Domain tags := List.Forall₂ KnownTag.Holds ks tags.1 ∧ UnknownTags ks tags.2

def Value.parts : Value → Option (List Value × (List Value × List RawTaggedField))
  | .struct wire tagged unknown => Option.some (wire, tagged, unknown)
  | _ => Option.none

/-- The fields on the wire, and the section of a flexible version. -/
def structCodec (flexible : Bool) (wire : List (WireCodec Value)) (ks : List KnownTag) :
    WireCodec Value :=
  .embed .stuck (fun parts => .struct parts.1 parts.2.1 parts.2.2) Value.parts
    (.pair (.each .stuck wire) (if flexible then sectionCodec ks else .absent (noTags ks, [])))

end Sections

section Messages

variable (parseF64 : ParseF64) (msg : Message) (version : Int16) (sizeOf : SizeOf)

def Message.isFlexible : Bool := msg.flexible.Contains version

/-- A field's own flexible versions win over the message's. -/
def fieldFlexible (f : Field) : Bool :=
  match f.flexibleOverride with
  | some range => range.Contains version
  | none => msg.isFlexible version

variable (call : String → WireCodec Value)

def fieldCodec (f : Field) : WireCodec Value :=
  let flexible := fieldFlexible msg version f
  match f.nullable with
  | none => valueCodec flexible sizeOf call f.ftype
  | some range => nullableCodec flexible (range.Contains version) sizeOf call f.name f.ftype

/-- A field outside its versions is at its default. -/
def wireCodec (f : Field) (default : Value) : WireCodec Value :=
  if f.versions.Contains version then fieldCodec msg version sizeOf call f else .absent default

def knownTag (f : Field) : KnownTag where
  tag := f.tag.getD 0
  known := f.versions.Contains version
  codec := fieldCodec msg version sizeOf call f

def fieldDefault (defaults : String → Option Value) (f : Field) : Option Value := do
  let value ← (defaultExpr parseF64 f).toOption
  evalDefault defaults f.ftype value

def Message.find (name : String) : Option StructDef :=
  msg.structs.find? fun d => d.name = name

def Message.defaultAt : (depth : Nat) → (name : String) → Option Value
  | 0, _ => none
  | depth + 1, name => do
    let d ← msg.find name
    let wire ← d.wireFields.mapM (fieldDefault parseF64 (Message.defaultAt depth))
    pure (.struct wire (d.taggedFields.map fun _ => .none) [])

def Message.default (name : String) : Option Value :=
  msg.defaultAt parseF64 msg.structs.length name

def defCodec (d : StructDef) (defaults : List Value) : WireCodec Value :=
  structCodec (msg.isFlexible version)
    (List.zipWith (wireCodec msg version sizeOf call) d.wireFields defaults)
    (d.taggedFields.map (knownTag msg version sizeOf call))

/-- The struct `name`, with structs in structs up to a depth. -/
def Message.codec : (depth : Nat) → (name : String) → WireCodec Value
  | 0, _ => nowhere
  | depth + 1, name =>
    match msg.find name, msg.default parseF64 name with
    | some d, some (.struct defaults _ _) =>
      defCodec msg version sizeOf (Message.codec depth) d defaults
    | _, _ => nowhere

end Messages

end Odradek.Codegen
