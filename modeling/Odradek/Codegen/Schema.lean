import Mathlib.Data.List.Sort
import Odradek.Codegen.VersionGuards

/-!
The message schemas the generator reads (`xtask`), and the structs of a
message: its own, those its fields define in place, and the common ones. A name
is kept for the first struct that takes it.
-/

namespace Odradek.Codegen

open Library

inductive FieldType
  | bool
  | int8
  | int16
  | uint16
  | int32
  | uint32
  | int64
  | float64
  | uuid
  | string
  | bytes
  | records
  | struct (name : String)
  | array (elem : FieldType)
  deriving DecidableEq

/-- `default` of a field, as far as `default_str` looks at it. A number stands
for its printed text. -/
inductive SchemaDefault
  | string (text : Text)
  | number (text : Text)
  | bool (value : Bool)
  | other

structure Field where
  name : String
  ftype : FieldType
  versions : VersionRange
  nullable : Option VersionRange
  tag : Option Nat
  taggedVersions : Option VersionRange
  default : Option SchemaDefault
  flexibleOverride : Option VersionRange
  inlineFields : Option (List Field)

structure StructDef where
  name : String
  fields : List Field

structure Message where
  name : String
  valid : VersionRange
  flexible : VersionRange
  fields : List Field
  commonStructs : List StructDef

def structNameOf : FieldType → Option String
  | .struct name => some name
  | .array inner => structNameOf inner
  | _ => none

/-- A struct, unless its name is taken. -/
def addStruct (name : String) (fields : List Field) (out : List StructDef) : List StructDef :=
  if out.any (fun s => s.name = name) then out else out ++ [⟨name, fields⟩]

mutual

def collectInlineStructs : List Field → List StructDef → List StructDef
  | [], out => out
  | f :: fields, out => collectInlineStructs fields (collectInlineField f out)

def collectInlineField : Field → List StructDef → List StructDef
  | { ftype, inlineFields, .. }, out => collectInlineFields ftype inlineFields out

def collectInlineFields (ftype : FieldType) : Option (List Field) → List StructDef → List StructDef
  | none, out => out
  | some inner, out =>
    let out := match structNameOf ftype with
      | some name => addStruct name inner out
      | none => out
    collectInlineStructs inner out

end

/-- The loop of `generate_message` over the common structs. -/
def collectCommonStructs : List StructDef → List StructDef → List StructDef
  | [], out => out
  | cs :: rest, out =>
    collectCommonStructs rest (collectInlineStructs cs.fields (addStruct cs.name cs.fields out))

/-- The structs `generate_message` writes out, the message itself first. -/
def Message.structs (msg : Message) : List StructDef :=
  collectCommonStructs msg.commonStructs
    (collectInlineStructs msg.fields [⟨msg.name, msg.fields⟩])

def StructDef.wireFields (d : StructDef) : List Field := d.fields.filter fun f => f.tag.isNone

/-- Ordered by `sort_by_key(|f| f.tag)`. -/
def StructDef.taggedFields (d : StructDef) : List Field :=
  (d.fields.filter fun f => f.tag.isSome).insertionSort fun a b => a.tag.getD 0 ≤ b.tag.getD 0

def apiVersionsResponse : Message where
  name := "ApiVersionsResponse"
  valid := ⟨0, 4⟩
  flexible := ⟨3, 32767⟩
  fields := [
    ⟨"ErrorCode", .int16, ⟨0, 32767⟩, none, none, none, none, none, none⟩,
    ⟨"ApiKeys", .array (.struct "ApiVersion"), ⟨0, 32767⟩, none, none, none, none, none, some [
      ⟨"ApiKey", .int16, ⟨0, 32767⟩, none, none, none, none, none, none⟩,
      ⟨"MinVersion", .int16, ⟨0, 32767⟩, none, none, none, none, none, none⟩,
      ⟨"MaxVersion", .int16, ⟨0, 32767⟩, none, none, none, none, none, none⟩]⟩,
    ⟨"ThrottleTimeMs", .int32, ⟨1, 32767⟩, none, none, none, none, none, none⟩,
    ⟨"SupportedFeatures", .array (.struct "SupportedFeatureKey"), ⟨3, 32767⟩, none, some 0,
      some ⟨3, 32767⟩, none, none, some [
      ⟨"Name", .string, ⟨3, 32767⟩, none, none, none, none, none, none⟩,
      ⟨"MinVersion", .int16, ⟨3, 32767⟩, none, none, none, none, none, none⟩,
      ⟨"MaxVersion", .int16, ⟨3, 32767⟩, none, none, none, none, none, none⟩]⟩,
    ⟨"FinalizedFeaturesEpoch", .int64, ⟨3, 32767⟩, none, some 1, some ⟨3, 32767⟩,
      some (.string "-1".toList), none, none⟩,
    ⟨"FinalizedFeatures", .array (.struct "FinalizedFeatureKey"), ⟨3, 32767⟩, none, some 2,
      some ⟨3, 32767⟩, none, none, some [
      ⟨"Name", .string, ⟨3, 32767⟩, none, none, none, none, none, none⟩,
      ⟨"MaxVersionLevel", .int16, ⟨3, 32767⟩, none, none, none, none, none, none⟩,
      ⟨"MinVersionLevel", .int16, ⟨3, 32767⟩, none, none, none, none, none, none⟩]⟩,
    ⟨"ZkMigrationReady", .bool, ⟨3, 32767⟩, none, some 3, some ⟨3, 32767⟩,
      some (.string "false".toList), none, none⟩]
  commonStructs := []

end Odradek.Codegen
