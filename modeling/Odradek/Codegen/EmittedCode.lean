import Odradek.Codegen.Emission
import Odradek.Protocol.Flexible

/-!
What the emitted code does when it runs: the encode and the decode of each
struct, over values of the struct's Rust type. Structs call each other by name,
so a run has a depth, the calls that may be open at once. A value of another
type than the code expects, a name no struct has and a call below the last depth
leave a run stuck; the compiler refuses the first two.
-/

namespace Odradek.Codegen

open Library Library.Decoder Protocol

/-- The values of the generated types. A struct's fields are those on the wire
and then the tagged ones; a field that may be absent or null is an `Option`. -/
inductive Value
  | bool (b : Bool)
  | int8 (n : Int8)
  | int16 (n : Int16)
  | uint16 (n : UInt16)
  | int32 (n : Int32)
  | uint32 (n : UInt32)
  | int64 (n : Int64)
  | float64 (bits : UInt64)
  | uuid (bytes : Bytes)
  | string (s : String)
  | bytes (bytes : Bytes)
  | array (items : List Value)
  | none
  | some (inner : Value)
  | struct (wire tagged : List Value) (unknown : List RawTaggedField)

def Value.isNone : Value → Bool
  | .none => true
  | _ => false

def Value.ofOption {α : Type} (wrap : α → Value) : Option α → Value
  | Option.some a => .some (wrap a)
  | Option.none => .none

section Guards

/-- Whether a test that may have been folded away lets a null or a tag through. -/
def passes (version : Int16) : Option Text → Bool
  | some test => Guard.truth test version = some true
  | none => true

def Switched.taken {β : Type} (holds : Text → Bool) : Switched β → β
  | .arm only => only
  | .either cond flexArm plainArm => if holds cond then flexArm else plainArm

def Program.isFlexible (program : Program) (version : Int16) : Bool :=
  Guard.truth program.flexible version = some true

/-- A condition of an `if`. -/
def Program.holds (program : Program) (version : Int16) (cond : Text) : Bool :=
  if cond = isFlexibleCall then program.isFlexible version
  else Guard.truth cond version = some true

def Program.find (program : Program) (name : String) : Option StructCode :=
  program.structs.find? fun code => code.name = name

end Guards

section Encode

inductive EncodeHalt
  | error (error : EncodeError)
  | stuck
  deriving DecidableEq

abbrev Encode (α : Type) := Except EncodeHalt α

def attempt {α : Type} : Except EncodeError α → Encode α
  | .ok a => .ok a
  | .error e => .error (.error e)

def Put.run : Put → Value → Encode Bytes
  | .bool, .bool b => .ok (putBool b)
  | .i8, .int8 n => .ok (putI8 n)
  | .i16, .int16 n => .ok (putI16 n)
  | .u16, .uint16 n => .ok (putU16 n)
  | .i32, .int32 n => .ok (putI32 n)
  | .u32, .uint32 n => .ok (putU32 n)
  | .i64, .int64 n => .ok (putI64 n)
  | .f64, .float64 bits => .ok (putF64 bits)
  | .uuid, .uuid data => .ok data
  | .string, .string s => attempt (putString s)
  | .compactString, .string s => .ok (putCompactString s)
  | .bytes, .bytes data => attempt (putBytes data)
  | .compactBytes, .bytes data => .ok (putCompactBytes data)
  | .nullableString, .some (.string s) => attempt (putNullableString (some s))
  | .nullableString, .none => attempt (putNullableString none)
  | .compactNullableString, .some (.string s) => .ok (putCompactNullableString (some s))
  | .compactNullableString, .none => .ok (putCompactNullableString none)
  | .nullableBytes, .some (.bytes data) => attempt (putNullableBytes (some data))
  | .nullableBytes, .none => attempt (putNullableBytes none)
  | .compactNullableBytes, .some (.bytes data) => .ok (putCompactNullableBytes (some data))
  | .compactNullableBytes, .none => .ok (putCompactNullableBytes none)
  | _, _ => .error .stuck

def LenCall.put : LenCall → Option Nat → Except EncodeError Bytes
  | .classic, len => putArrayLen len
  | .compact, len => .ok (putCompactArrayLen len)

variable (holds : Text → Bool) (version : Int16) (call : String → Value → Encode Bytes)

def ElementCode.encode : ElementCode Put → Value → Encode Bytes
  | .call code, v => (code.taken holds).run v
  | .struct name, v => call name v

def encodeItems (item : Value → Encode Bytes) : List Value → Encode Bytes
  | [] => .ok []
  | v :: vs => do
    let bytes ← item v
    let rest ← encodeItems item vs
    pure (bytes ++ rest)

def encodeArray (len : LenCall) (item : Value → Encode Bytes) (vs : List Value) : Encode Bytes := do
  let count ← attempt (len.put (some vs.length))
  let bytes ← encodeItems item vs
  pure (count ++ bytes)

/-- What comes after the test of a null. -/
def NullTest.after (null : NullTest) (write : Encode Bytes) : Encode Bytes :=
  if passes version null.test then write else .error (.error (.nullField null.field))

def EncodeCode.run : EncodeCode → Value → Encode Bytes
  | .put code, v => (code.taken holds).run v
  | .struct name, v => call name v
  | .guarded null code, v =>
    if v.isNone then null.after version ((code.taken holds).run v) else (code.taken holds).run v
  | .items len elem, .array vs => encodeArray (len.taken holds) (elem.encode holds call) vs
  | .nullableItems len _ _ elem, .some (.array vs) =>
    encodeArray (len.taken holds) (elem.encode holds call) vs
  | .nullableItems _ len null _, .none =>
    null.after version (attempt ((len.taken holds).put none))
  | .nullableStruct _ name, .some v => do
    let bytes ← call name v
    pure (putI8 1 ++ bytes)
  | .nullableStruct null _, .none => null.after version (.ok (putI8 (-1)))
  | _, _ => .error .stuck

def runGuarded (code : Emitted EncodeCode) (v : Value) : Encode Bytes :=
  match code.runs version with
  | some body => body.run holds version call v
  | none => .ok []

def encodeWire : List (Emitted EncodeCode) → List Value → Encode Bytes
  | [], [] => .ok []
  | code :: codes, v :: vs => do
    let bytes ← runGuarded holds version call code v
    let rest ← encodeWire codes vs
    pure (bytes ++ rest)
  | _, _ => .error .stuck

def TaggedEncode.run (code : TaggedEncode) : Value → Encode (List RawTaggedField)
  | .none => .ok []
  | .some v =>
    match code.body.runs version with
    | some body => do
      let data ← body.run holds version call v
      pure [{ tag := code.tag, data }]
    | none => .ok []
  | _ => .error .stuck

def encodeKnown : List TaggedEncode → List Value → Encode (List RawTaggedField)
  | [], [] => .ok []
  | code :: codes, v :: vs => do
    let field ← code.run holds version call v
    let rest ← encodeKnown codes vs
    pure (field ++ rest)
  | _, _ => .error .stuck

/-- The tagged section: in the order given when no tag is known, else sorted. -/
def StructCode.encodeTags (code : StructCode) (tagged : List Value)
    (unknown : List RawTaggedField) : Encode Bytes :=
  if code.encodeTagged = [] then .ok (putTaggedFields unknown)
  else do
    let known ← encodeKnown holds version call code.encodeTagged tagged
    pure (putTaggedFields (sortByTag (unknown ++ known)))

def StructCode.run (flexible : Bool) (code : StructCode) : Value → Encode Bytes
  | .struct wire tagged unknown => do
    let body ← encodeWire holds version call code.encode wire
    let tags ← if flexible then code.encodeTags holds version call tagged unknown else .ok []
    pure (body ++ tags)
  | _ => .error .stuck

end Encode

def Program.encode (program : Program) (version : Int16) :
    (depth : Nat) → (name : String) → Value → Encode Bytes
  | 0, _, _ => .error .stuck
  | depth + 1, name, v =>
    match program.find name with
    | some code => code.run (program.holds version) version (program.encode version depth)
        (program.isFlexible version) v
    | none => .error .stuck

section Defaults

/-- A literal in the range of its type. -/
def literal (low high n : Int) (value : Value) : Option Value :=
  if low ≤ n ∧ n ≤ high then some value else none

/-- The literals of an `f64` have no exponent of all ones. -/
def finite (bits : UInt64) : Bool := (bits >>> 52) &&& 0x7ff ≠ 0x7ff

def evalDefault (defaults : String → Option Value) : FieldType → DefaultExpr → Option Value
  | _, .none => some .none
  | ftype, .some inner => (evalDefault defaults ftype inner).map .some
  | .bool, .bool text =>
    if text = "true".toList then some (.bool true)
    else if text = "false".toList then some (.bool false)
    else none
  | .int8, .int n => literal (-2 ^ 7) (2 ^ 7 - 1) n (.int8 (Int8.ofInt n))
  | .int16, .int n => literal (-2 ^ 15) (2 ^ 15 - 1) n (.int16 (Int16.ofInt n))
  | .uint16, .int n => literal 0 (2 ^ 16 - 1) n (.uint16 (UInt16.ofNat n.toNat))
  | .int32, .int n => literal (-2 ^ 31) (2 ^ 31 - 1) n (.int32 (Int32.ofInt n))
  | .uint32, .int n => literal 0 (2 ^ 32 - 1) n (.uint32 (UInt32.ofNat n.toNat))
  | .int64, .int n => literal (-2 ^ 63) (2 ^ 63 - 1) n (.int64 (Int64.ofInt n))
  | .float64, .float bits => if finite bits then some (.float64 bits) else none
  | .uuid, .zeroUuid => some (.uuid (List.replicate uuidLen 0))
  | .string, .string text => some (.string (String.ofList text))
  | .bytes, .emptyBytes | .records, .emptyBytes => some (.bytes [])
  | .struct name, .structDefault => defaults name
  | .array _, .emptyVec => some (.array [])
  | _, _ => none

/-- The fields on the wire of a `Default`. -/
def StructCode.wireDefaults (defaults : String → Option Value) (code : StructCode) :
    Option (List Value) :=
  code.defaults.mapM fun (ftype, value) => evalDefault defaults ftype value

def StructCode.noTags (code : StructCode) : List Value := code.decodeTagged.map fun _ => .none

def Program.defaultAt (program : Program) : (depth : Nat) → (name : String) → Option Value
  | 0, _ => none
  | depth + 1, name => do
    let code ← program.find name
    let wire ← code.wireDefaults (program.defaultAt depth)
    pure (.struct wire code.noTags [])

/-- `Default::default()` of a struct; no type holds itself by value. -/
def Program.default (program : Program) (name : String) : Option Value :=
  program.defaultAt program.structs.length name

end Defaults

section Decode

/-- Code that does not compile, or a stack that is used up. -/
def stuck {α : Type} : Decode α := throw .panic

def Get.run : Get → Decode Value
  | .bool => do let b ← getBool; pure (.bool b)
  | .i8 => do let n ← getI8; pure (.int8 n)
  | .i16 => do let n ← getI16; pure (.int16 n)
  | .u16 => do let n ← getU16; pure (.uint16 n)
  | .i32 => do let n ← getI32; pure (.int32 n)
  | .u32 => do let n ← getU32; pure (.uint32 n)
  | .i64 => do let n ← getI64; pure (.int64 n)
  | .f64 => do let bits ← getF64; pure (.float64 bits)
  | .uuid => do let bytes ← getUuid; pure (.uuid bytes)
  | .string => do let s ← getString; pure (.string s)
  | .compactString => do let s ← getCompactString; pure (.string s)
  | .nullableString => do let s ← getNullableString; pure (.ofOption .string s)
  | .compactNullableString => do let s ← getCompactNullableString; pure (.ofOption .string s)
  | .nullableBytes => do let b ← getNullableBytes; pure (.ofOption .bytes b)
  | .compactNullableBytes => do let b ← getCompactNullableBytes; pure (.ofOption .bytes b)

def LenCall.get : LenCall → Decode (Option Nat)
  | .classic => getArrayLen
  | .compact => getCompactArrayLen

/-- The `size_of` of the elements of a `Vec`, which the layout of a struct decides. -/
abbrev SizeOf := FieldType → Nat

variable (holds : Text → Bool) (version : Int16) (sizeOf : SizeOf) (call : String → Decode Value)

/-- A struct has to consume input; every other element does. -/
def ElementCode.decode : ElementCode Get → Decode Value
  | .call code => (code.taken holds).run
  | .struct name => progressing (call name)

def nullWhere (allowed : Bool) : Decode Value :=
  if allowed then pure .none else fail (.invalidLength (-1))

/-- `match raw { Some(v) => v, None => return Err(..) }`. -/
def unwrapped : Value → Decode Value
  | .some v => pure v
  | .none => fail (.invalidLength (-1))
  | _ => stuck

def decodeArray (elem : Nat) (item : Decode Value) (count : Nat) : Decode Value := do
  let items ← getItems elem item count (Vec.new elem)
  pure (.array items.items)

def NoneArm.run : NoneArm → Decode Value
  | .refuse => fail (.invalidLength (-1))
  | .null test => nullWhere (passes version test)

/-- The elements are wrapped where the field is nullable. -/
def NoneArm.wrap : NoneArm → Value → Value
  | .refuse, v => v
  | .null _, v => .some v

def DecodeCode.run : DecodeCode → Decode Value
  | .get code => (code.taken holds).run
  | .struct name => call name
  | .nullableStruct test name => do
    let marker ← getI8
    if marker < 0 then nullWhere (passes version test)
    else
      let v ← call name
      pure (.some v)
  | .notNull code => do
    let raw ← (code.taken holds).run
    unwrapped raw
  | .nullable test code => do
    let raw ← (code.taken holds).run
    if raw.isNone then nullWhere (passes version test) else pure raw
  | .items len null elemType elem => do
    let len ← (len.taken holds).get
    match len with
    | some count =>
      let items ← decodeArray (sizeOf elemType) (elem.decode holds call) count
      pure (null.wrap items)
    | none => null.run version

/-- `this.field = value`, over the default it has. -/
def assigned (code : Emitted DecodeCode) (dflt : Value) : Decode Value :=
  match code.runs version with
  | some value => value.run holds version sizeOf call
  | none => pure dflt

def decodeWire : List (Emitted DecodeCode) → List Value → Decode (List Value)
  | [], _ => pure []
  | code :: codes, dflt :: dflts => do
    let v ← assigned holds version sizeOf call code dflt
    let vs ← decodeWire codes dflts
    pure (v :: vs)
  | _ :: _, [] => stuck

/-- The first branch whose tag and test fit, with the place of its field. -/
def branchFor (tag : Nat) : List TaggedDecode → (place : Nat) → Option (Nat × Decode Value)
  | [], _ => none
  | code :: codes, place =>
    if tag = code.tag ∧ passes version code.test then
      some (place, code.value.run holds version sizeOf call)
    else branchFor tag codes (place + 1)

/-- One turn of the loop over the tagged fields that were read. -/
def takeTagged (branch : Nat → Option (Nat × Decode Value)) (tagged : List Value)
    (unknown : Vec RawTaggedField) (raw : RawTaggedField) :
    Decode (List Value × Vec RawTaggedField) :=
  match branch raw.tag with
  | some (place, value) => do
    let v ← getKnown value raw.data
    pure (tagged.set place (.some v), unknown)
  | none => do
    let unknown ← push rawTaggedFieldSize unknown raw
    pure (tagged, unknown)

def takeAllTagged (branch : Nat → Option (Nat × Decode Value)) :
    List RawTaggedField → List Value → Vec RawTaggedField →
      Decode (List Value × List RawTaggedField)
  | [], tagged, unknown => pure (tagged, unknown.items)
  | raw :: raws, tagged, unknown => do
    let (tagged, unknown) ← takeTagged branch tagged unknown raw
    takeAllTagged branch raws tagged unknown

/-- The tagged section: kept as it is when no tag is known. -/
def StructCode.decodeTags (code : StructCode) : Decode (List Value × List RawTaggedField) := do
  let raws ← getTaggedFields
  if code.decodeTagged = [] then pure ([], raws)
  else
    takeAllTagged (fun tag => branchFor holds version sizeOf call tag code.decodeTagged 0) raws
      code.noTags (Vec.new rawTaggedFieldSize)

def StructCode.read (flexible : Bool) (code : StructCode) (wireDefaults : List Value) :
    Decode Value := do
  let wire ← decodeWire holds version sizeOf call code.decode wireDefaults
  if flexible then
    let (tagged, unknown) ← code.decodeTags holds version sizeOf call
    pure (.struct wire tagged unknown)
  else pure (.struct wire code.noTags [])

end Decode

def Program.decode (program : Program) (version : Int16) (sizeOf : SizeOf) :
    (depth : Nat) → (name : String) → Decode Value
  | 0, _ => stuck
  | depth + 1, name =>
    match program.find name, program.default name with
    | some code, some (.struct wire _ _) =>
      code.read (program.holds version) version sizeOf (program.decode version sizeOf depth)
        (program.isFlexible version) wire
    | _, _ => stuck

end Odradek.Codegen
