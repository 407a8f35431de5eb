import Odradek.Codegen.Schema

/-!
The code the generator writes for a message (`generate_message`), as data: one
constructor for each form a field's encode or decode body can take, with the
calls it makes and the guards it keeps. Constant guards are folded where the
source folds them. What a schema may not ask for is an error of the generator.
-/

namespace Odradek.Codegen

open Library

inductive GenerateError
  | partiallyTagged (struct field : String) (taggedVersions : Option VersionRange)
      (versions : VersionRange)
  | nullDefault (field : String)
  | badDefault (text : Text)
  | unsupportedNullable (ftype : FieldType) (field : String)
  | unsupportedElement (ftype : FieldType) (field : String)
  deriving DecidableEq

section Defaults

/-- The expressions a `Default` impl gives its fields. -/
inductive DefaultExpr
  | bool (literal : Text)
  | int (literal : Int)
  | float (bits : UInt64)
  | zeroUuid
  | string (value : Text)
  | emptyBytes
  | structDefault
  | emptyVec
  | none
  | some (inner : DefaultExpr)
  deriving DecidableEq

def defaultStr (f : Field) : Option Text :=
  match f.default with
  | some (.string s) => some s
  | some (.number n) => some n
  | some (.bool b) => some (if b then "true".toList else "false".toList)
  | _ => none

def hexDigit (c : Char) : Option Nat :=
  if c.isDigit then some (c.toNat - '0'.toNat)
  else if 'a' ≤ c ∧ c ≤ 'f' then some (c.toNat - 'a'.toNat + 10)
  else if 'A' ≤ c ∧ c ≤ 'F' then some (c.toNat - 'A'.toNat + 10)
  else none

def readHexDigits : (value : Nat) → Text → Option Nat
  | value, [] => some value
  | value, c :: text => do
    let digit ← hexDigit c
    readHexDigits (16 * value + digit) text

/-- `i128::from_str_radix(text, 16)`. -/
def readHex (text : Text) : Option Int :=
  let number : Option Int := match text with
    | [] => none
    | ['+'] => none
    | ['-'] => none
    | '+' :: digits => (readHexDigits 0 digits).map Int.ofNat
    | '-' :: digits => (readHexDigits 0 digits).map fun n => -Int.ofNat n
    | digits => (readHexDigits 0 digits).map Int.ofNat
  number.filter fun n => -2 ^ 127 ≤ n ∧ n ≤ 2 ^ 127 - 1

def readIntDefault (s : Text) : Option Int :=
  if let some hex := "0x".toList.isPrefixOf? s then readHex hex
  else if let some hex := "-0x".toList.isPrefixOf? s then (readHex hex).map fun n => -n
  else Text.readWithin (-2 ^ 127) (2 ^ 127 - 1) s

def parseIntDefault (s : Text) : Except GenerateError Int :=
  match readIntDefault (Text.trim s) with
  | some n => .ok n
  | none => .error (.badDefault s)

/-- `str::parse::<f64>`, by the bits of what it returns. -/
abbrev ParseF64 := Text → Option UInt64

def parseFloatDefault (parseF64 : ParseF64) (s : Text) : Except GenerateError UInt64 :=
  match parseF64 s with
  | some bits => .ok bits
  | none => .error (.badDefault s)

/-- The default of a field that has a value, before the `Option` around it. -/
def innerDefault (parseF64 : ParseF64) (dflt : Option Text) :
    FieldType → Except GenerateError DefaultExpr
  | .bool => .ok (.bool (dflt.getD "false".toList))
  | .int8 | .int16 | .uint16 | .int32 | .uint32 | .int64 =>
    match dflt with
    | some s =>
      if s = "null".toList then .ok (.int 0)
      else do
        let n ← parseIntDefault s
        pure (.int n)
    | none => .ok (.int 0)
  | .float64 =>
    match dflt with
    | some s =>
      if s = "null".toList then .ok (.float 0)
      else do
        let bits ← parseFloatDefault parseF64 s
        pure (.float bits)
    | none => .ok (.float 0)
  | .uuid => .ok .zeroUuid
  | .string =>
    match dflt with
    | some s => .ok (.string (if s = "null".toList then [] else s))
    | none => .ok (.string [])
  | .bytes | .records => .ok .emptyBytes
  | .struct _ => .ok .structDefault
  | .array _ => .ok .emptyVec

def defaultExpr (parseF64 : ParseF64) (f : Field) : Except GenerateError DefaultExpr := do
  let dflt := defaultStr f
  let isNull : Bool := dflt = some "null".toList
  if isNull ∧ f.nullable = none then throw (.nullDefault f.name)
  let inner ← innerDefault parseF64 dflt f.ftype
  pure (if f.nullable.isSome then (if isNull then .none else .some inner) else inner)

end Defaults

section Calls

/-- What `flex_switch` writes: one arm, or both behind a condition. -/
inductive Switched (β : Type)
  | arm (only : β)
  | either (cond : Text) (flexArm plainArm : β)
  deriving DecidableEq

def flexArms {β : Type} (flex : Text) (flexArm plainArm : β) : Switched β :=
  if flex = "true".toList then .arm flexArm
  else if flex = "false".toList then .arm plainArm
  else .either flex flexArm plainArm

def isFlexibleCall : Text := "is_flexible(version)".toList

/-- A field's own flexible versions win over the message's. -/
def fieldFlexExpr (msg : Message) (f : Field) : Text :=
  match f.flexibleOverride with
  | some range => range.expr msg.valid
  | none => isFlexibleCall

/-- Folded over the versions the field is on the wire. -/
def nullableExpr (msg : Message) (f : Field) : Option Text :=
  f.nullable.map fun range => range.expr (msg.valid.intersect f.versions)

/-- The test in front of what is only allowed at some versions, unless it always is. -/
def testUnless (versions : Text) : Option Text :=
  if versions = "true".toList then none else some versions

inductive Put
  | bool
  | i8
  | i16
  | u16
  | i32
  | u32
  | i64
  | f64
  | uuid
  | string
  | compactString
  | bytes
  | compactBytes
  | nullableString
  | compactNullableString
  | nullableBytes
  | compactNullableBytes
  deriving DecidableEq

inductive Get
  | bool
  | i8
  | i16
  | u16
  | i32
  | u32
  | i64
  | f64
  | uuid
  | string
  | compactString
  | nullableString
  | compactNullableString
  | nullableBytes
  | compactNullableBytes
  deriving DecidableEq

/-- `put_array_len` or `put_compact_array_len`, and what reads them. -/
inductive LenCall
  | classic
  | compact
  deriving DecidableEq

end Calls

section Bodies

inductive ElementCode (κ : Type)
  | call (call : Switched κ)
  | struct (name : String)
  deriving DecidableEq

/-- An `Err(NullField(..))` where null is not allowed. -/
structure NullTest where
  field : String
  test : Option Text
  deriving DecidableEq

/-- The encode body of a field, over the value at its path. -/
inductive EncodeCode
  | put (call : Switched Put)
  | struct (name : String)
  | guarded (null : NullTest) (call : Switched Put)
  | items (len : Switched LenCall) (elem : ElementCode Put)
  | nullableItems (some none : Switched LenCall) (null : NullTest) (elem : ElementCode Put)
  | nullableStruct (null : NullTest) (name : String)
  deriving DecidableEq

/-- The `None` arm of an array: an error, or a null behind its test. -/
inductive NoneArm
  | refuse
  | null (test : Option Text)
  deriving DecidableEq

inductive DecodeCode
  | get (call : Switched Get)
  | struct (name : String)
  | nullableStruct (test : Option Text) (name : String)
  | notNull (read : Switched Get)
  | nullable (test : Option Text) (read : Switched Get)
  | items (len : Switched LenCall) (null : NoneArm) (elemType : FieldType)
      (elem : ElementCode Get)
  deriving DecidableEq

variable (msg : Message) (f : Field)

def encodeElement (elem : FieldType) : Except GenerateError (ElementCode Put) :=
  let flex := fieldFlexExpr msg f
  match elem with
  | .bool => .ok (.call (.arm .bool))
  | .int8 => .ok (.call (.arm .i8))
  | .int16 => .ok (.call (.arm .i16))
  | .uint16 => .ok (.call (.arm .u16))
  | .int32 => .ok (.call (.arm .i32))
  | .uint32 => .ok (.call (.arm .u32))
  | .int64 => .ok (.call (.arm .i64))
  | .float64 => .ok (.call (.arm .f64))
  | .uuid => .ok (.call (.arm .uuid))
  | .struct name => .ok (.struct name)
  | .string => .ok (.call (flexArms flex .compactString .string))
  | .bytes => .ok (.call (flexArms flex .compactBytes .bytes))
  | other => .error (.unsupportedElement other f.name)

def encodeFieldValue : Except GenerateError EncodeCode :=
  let flex := fieldFlexExpr msg f
  match f.ftype, nullableExpr msg f with
  | .bool, none => .ok (.put (.arm .bool))
  | .int8, none => .ok (.put (.arm .i8))
  | .int16, none => .ok (.put (.arm .i16))
  | .uint16, none => .ok (.put (.arm .u16))
  | .int32, none => .ok (.put (.arm .i32))
  | .uint32, none => .ok (.put (.arm .u32))
  | .int64, none => .ok (.put (.arm .i64))
  | .float64, none => .ok (.put (.arm .f64))
  | .uuid, none => .ok (.put (.arm .uuid))
  | .struct name, none => .ok (.struct name)
  | .string, none => .ok (.put (flexArms flex .compactString .string))
  | .bytes, none | .records, none => .ok (.put (flexArms flex .compactBytes .bytes))
  | .string, some nullable =>
    .ok (.guarded ⟨f.name, testUnless nullable⟩
      (flexArms flex .compactNullableString .nullableString))
  | .bytes, some nullable | .records, some nullable =>
    .ok (.guarded ⟨f.name, testUnless nullable⟩
      (flexArms flex .compactNullableBytes .nullableBytes))
  | .array elem, none => do
    let elem ← encodeElement msg f elem
    pure (.items (flexArms flex .compact .classic) elem)
  | .array elem, some nullable => do
    let elem ← encodeElement msg f elem
    pure (.nullableItems (flexArms flex .compact .classic) (flexArms flex .compact .classic)
      ⟨f.name, testUnless nullable⟩ elem)
  | .struct name, some nullable => .ok (.nullableStruct ⟨f.name, testUnless nullable⟩ name)
  | other, some _ => .error (.unsupportedNullable other f.name)

def decodeElement (elem : FieldType) : Except GenerateError (ElementCode Get) :=
  let flex := fieldFlexExpr msg f
  match elem with
  | .bool => .ok (.call (.arm .bool))
  | .int8 => .ok (.call (.arm .i8))
  | .int16 => .ok (.call (.arm .i16))
  | .uint16 => .ok (.call (.arm .u16))
  | .int32 => .ok (.call (.arm .i32))
  | .uint32 => .ok (.call (.arm .u32))
  | .int64 => .ok (.call (.arm .i64))
  | .float64 => .ok (.call (.arm .f64))
  | .uuid => .ok (.call (.arm .uuid))
  | .struct name => .ok (.struct name)
  | .string => .ok (.call (flexArms flex .compactString .string))
  | other => .error (.unsupportedElement other f.name)

def noneArm : Option Text → NoneArm
  | none => .refuse
  | some nullable => .null (testUnless nullable)

def decodeValue : Except GenerateError DecodeCode :=
  let flex := fieldFlexExpr msg f
  match f.ftype, nullableExpr msg f with
  | .bool, none => .ok (.get (.arm .bool))
  | .int8, none => .ok (.get (.arm .i8))
  | .int16, none => .ok (.get (.arm .i16))
  | .uint16, none => .ok (.get (.arm .u16))
  | .int32, none => .ok (.get (.arm .i32))
  | .uint32, none => .ok (.get (.arm .u32))
  | .int64, none => .ok (.get (.arm .i64))
  | .float64, none => .ok (.get (.arm .f64))
  | .uuid, none => .ok (.get (.arm .uuid))
  | .struct name, none => .ok (.struct name)
  | .struct name, some nullable => .ok (.nullableStruct (testUnless nullable) name)
  | .string, none => .ok (.get (flexArms flex .compactString .string))
  | .bytes, none | .records, none =>
    .ok (.notNull (flexArms flex .compactNullableBytes .nullableBytes))
  | .string, some nullable =>
    .ok (.nullable (testUnless nullable) (flexArms flex .compactNullableString .nullableString))
  | .bytes, some nullable | .records, some nullable =>
    .ok (.nullable (testUnless nullable) (flexArms flex .compactNullableBytes .nullableBytes))
  | .array elem, nullable => do
    let code ← decodeElement msg f elem
    pure (.items (flexArms flex .compact .classic) (noneArm nullable) elem code)
  | other, some _ => .error (.unsupportedNullable other f.name)

end Bodies

section Structs

/-- The encode of a tagged field, into a buffer of its own. -/
structure TaggedEncode where
  tag : Nat
  body : Emitted EncodeCode

/-- The branch for a known tag, and the test beside the tag. -/
structure TaggedDecode where
  tag : Nat
  test : Option Text
  value : DecodeCode
  deriving DecidableEq

/-- The code of one struct. Its fields are in the order of the struct: first
those on the wire, then the tagged ones, by tag. -/
structure StructCode where
  name : String
  defaults : List (FieldType × DefaultExpr)
  encode : List (Emitted EncodeCode)
  encodeTagged : List TaggedEncode
  decode : List (Emitted DecodeCode)
  decodeTagged : List TaggedDecode

structure Program where
  top : String
  flexible : Text
  structs : List StructCode

variable (parseF64 : ParseF64) (msg : Message)

def generateDefault (f : Field) : Except GenerateError (FieldType × DefaultExpr) := do
  let value ← defaultExpr parseF64 f
  pure (f.ftype, value)

def generateEncode (f : Field) : Except GenerateError (Emitted EncodeCode) := do
  let body ← encodeFieldValue msg f
  pure (emitGuarded (f.versions.expr msg.valid) body)

def generateEncodeTagged (f : Field) : Except GenerateError TaggedEncode := do
  let body ← generateEncode msg f
  pure { tag := f.tag.getD 0, body }

def generateDecode (f : Field) : Except GenerateError (Emitted DecodeCode) := do
  let value ← decodeValue msg f
  pure (emitGuarded (f.versions.expr msg.valid) value)

def generateDecodeTagged (f : Field) : Except GenerateError TaggedDecode := do
  let value ← decodeValue msg f
  pure { tag := f.tag.getD 0, test := testUnless (f.versions.expr msg.valid), value }

def generateStruct (d : StructDef) : Except GenerateError StructCode := do
  let defaults ← d.wireFields.mapM (generateDefault parseF64)
  let encode ← d.wireFields.mapM (generateEncode msg)
  let encodeTagged ← d.taggedFields.mapM (generateEncodeTagged msg)
  let decode ← d.wireFields.mapM (generateDecode msg)
  let decodeTagged ← d.taggedFields.mapM (generateDecodeTagged msg)
  pure { name := d.name, defaults, encode, encodeTagged, decode, decodeTagged }

/-- A tagged field is tagged for its entire lifetime. -/
def checkTagged (d : StructDef) (f : Field) : Except GenerateError Unit :=
  if f.tag.isSome ∧ f.taggedVersions ≠ some f.versions then
    .error (.partiallyTagged d.name f.name f.taggedVersions f.versions)
  else .ok ()

def generateMessage : Except GenerateError Program := do
  msg.structs.forM fun d => d.fields.forM (checkTagged d)
  let structs ← msg.structs.mapM (generateStruct parseF64 msg)
  pure { top := msg.name, flexible := msg.flexible.expr msg.valid, structs }

end Structs

end Odradek.Codegen
