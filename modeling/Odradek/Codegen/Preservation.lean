import Odradek.Codegen.WireFormat

/-!
The emitted code means what the schema does, at every version the message
supports: the arm a flexible switch takes, the guards that were folded away and
those that were kept, and the branches for known tags. The proof follows the
generator, from the guards to the fields, the structs and the whole message.
-/

namespace Odradek.Codegen

open Library Library.Decoder Protocol

variable {parseF64 : ParseF64} {msg : Message} {version : Int16} {program : Program}

section Switches

variable {β : Type} {f : Field} {range : VersionRange}

theorem read_isFlexibleCall : Guard.read isFlexibleCall = none := by decide

theorem Program.isFlexible_eq (hflexible : program.flexible = msg.flexible.expr msg.valid)
    (hvalid : msg.valid.Contains version) : program.isFlexible version =
    msg.isFlexible version := by
  rw [Program.isFlexible, hflexible, VersionRange.truth_expr _ _ _ hvalid]
  simp [Message.isFlexible]

/-- The arm that is taken is the one for the field's layout. -/
theorem flexArms_taken (hflexible : program.flexible = msg.flexible.expr msg.valid)
    (hvalid : msg.valid.Contains version) (f : Field) (flexArm plainArm : β) :
    (flexArms (fieldFlexExpr msg f) flexArm plainArm).taken (program.holds version) =
      if fieldFlexible msg version f then flexArm else plainArm := by
  unfold fieldFlexExpr fieldFlexible
  cases f.flexibleOverride with
  | none =>
      have harms : flexArms isFlexibleCall flexArm plainArm =
          .either isFlexibleCall flexArm plainArm := rfl
      rw [harms, Switched.taken, Program.holds, if_pos rfl,
        Program.isFlexible_eq hflexible hvalid]
  | some range =>
      have htruth := VersionRange.truth_expr range msg.valid version hvalid
      have hflat : (flexArms (range.expr msg.valid) flexArm plainArm).taken
          (program.holds version) = flexSwitch (range.expr msg.valid) version flexArm plainArm := by
        unfold flexArms flexSwitch
        split
        · rfl
        · split
          · rfl
          · -- A guard of the field is no call.
            have hcall : range.expr msg.valid ≠ isFlexibleCall := by
              intro h
              rw [h, Guard.truth, read_isFlexibleCall] at htruth
              cases htruth
            simp only [Switched.taken, Program.holds, if_neg hcall, decide_eq_true_iff]
      rw [hflat, flexSwitch_eq _ _ htruth]
      simp

theorem passes_testUnless {versions : Text} {p : Prop} [Decidable p]
    (h : Guard.truth versions version = some (decide p)) :
    passes version (testUnless versions) = decide p := by
  unfold testUnless
  split
  · rename_i htrue
    rw [htrue] at h
    exact (decide_eq_true (of_truth_true h)).symm
  · simp [passes, h]

/-- Where a field is on the wire its null test is exact. -/
theorem passes_nullable (hvalid : msg.valid.Contains version)
    (hversions : f.versions.Contains version)
    (range : VersionRange) :
    passes version (testUnless (range.expr (msg.valid.intersect f.versions))) =
      decide (range.Contains version) :=
  passes_testUnless (VersionRange.truth_expr _ _ _
    ((VersionRange.intersect_contains _ _ _).mpr ⟨hvalid, hversions⟩))

end Switches

section Fields

/-- A nullable leaf, as its codec writes it. -/
theorem nullable_field {null : NullTest} {range : VersionRange} {name : String}
    (hafter : ∀ write, null.after version write =
      if range.Contains version then write else .error (.error (.nullField name)))
    (write : Encode Bytes) (v : Value) :
    (if v.isNone then null.after version write else write) =
      if v.isNone ∧ ¬ decide (range.Contains version) then .error (.error (.nullField name))
      else write := by
  rw [hafter]
  by_cases hnone : v.isNone = true <;> by_cases hin : range.Contains version <;> simp [hnone, hin]

variable {f : Field} {callPut : String → Value → Encode Bytes} {callGet : String → Decode Value}
  (sizeOf : SizeOf) {call : String → WireCodec Value}
  (hflexible : program.flexible = msg.flexible.expr msg.valid)
  (hvalid : msg.valid.Contains version)

include hflexible hvalid

theorem encodeElement_run (hput : ∀ name, (call name).put = callPut name) {elem : FieldType}
    {code : ElementCode Put} {code' : ElementCode Get} (hcode : encodeElement msg f elem = .ok code)
    (hcode' : decodeElement msg f elem = .ok code') :
    code.encode (program.holds version) callPut =
      (elementCodec (fieldFlexible msg version f) call elem).put := by
  funext v
  cases elem with
  | bool | int8 | int16 | uint16 | int32 | uint32 | int64 | float64 | uuid =>
      cases hcode
      rfl
  | string =>
      cases hcode
      rw [ElementCode.encode, flexArms_taken hflexible hvalid]
      unfold elementCodec leafCodec
      cases fieldFlexible msg version f <;> rfl
  | struct name =>
      cases hcode
      exact congrFun (hput name).symm v
  | bytes => cases hcode'
  | records => cases hcode
  | array elem => cases hcode

theorem decodeElement_run (hget : ∀ name, (call name).get = callGet name) {elem : FieldType}
    {code : ElementCode Get} (hcode : decodeElement msg f elem = .ok code) :
    code.decode (program.holds version) callGet =
      (elementCodec (fieldFlexible msg version f) call elem).get := by
  cases elem with
  | bool | int8 | int16 | uint16 | int32 | uint32 | int64 | float64 | uuid =>
      cases hcode
      rfl
  | string =>
      cases hcode
      rw [ElementCode.decode, flexArms_taken hflexible hvalid]
      unfold elementCodec leafCodec
      cases fieldFlexible msg version f <;> rfl
  | struct name =>
      cases hcode
      exact congrArg progressing (hget name).symm
  | bytes => cases hcode
  | records => cases hcode
  | array elem => cases hcode

/-- The encode body of a field is its codec's writer. -/
theorem encodeFieldValue_run (hversions : f.versions.Contains version)
    (hput : ∀ name, (call name).put = callPut name) {code : EncodeCode} {code' : DecodeCode}
    (hcode : encodeFieldValue msg f = .ok code)
    (hcode' : decodeValue msg f = .ok code') (v : Value) :
    code.run (program.holds version) version callPut v =
      (fieldCodec msg version sizeOf call f).put v := by
  have htaken {β : Type} (flexArm plainArm : β) :=
    flexArms_taken hflexible hvalid f flexArm plainArm
  have hnull := passes_nullable hvalid hversions
  obtain ⟨name, ftype, versions, nullability, tag, tagged, dflt, override, inner⟩ := f
  cases nullability with
  | none =>
      cases ftype with
      | bool | int8 | int16 | uint16 | int32 | uint32 | int64 | float64 | uuid =>
          cases hcode
          rfl
      | string =>
          cases hcode
          rw [EncodeCode.run, htaken]
          unfold fieldCodec valueCodec leafCodec
          cases fieldFlexible msg version _ <;> rfl
      | bytes | records =>
          cases hcode
          rw [EncodeCode.run, htaken]
          unfold fieldCodec valueCodec leafCodec
          cases fieldFlexible msg version _ <;> rfl
      | struct name =>
          cases hcode
          exact congrFun (hput name).symm v
      | array elem =>
          obtain ⟨elemCode, helem, hcode⟩ := except_bind_eq_ok.mp hcode
          obtain ⟨elemCode', helem', _⟩ := except_bind_eq_ok.mp hcode'
          cases hcode
          have hitems := encodeElement_run hflexible hvalid hput helem helem'
          unfold fieldCodec valueCodec
          cases v with
          | array vs =>
              rw [EncodeCode.run, htaken, hitems]
              rfl
          | _ => rfl
  | some range =>
      have hallowed := hnull range
      have hafter (write : Encode Bytes) :
          NullTest.after version
            ⟨name, testUnless (range.expr (msg.valid.intersect versions))⟩ write =
            if range.Contains version then write else .error (.error (.nullField name)) := by
        simp only [NullTest.after, hallowed, decide_eq_true_iff]
      cases ftype with
      | bool | int8 | int16 | uint16 | int32 | uint32 | int64 | float64 | uuid => cases hcode
      | string =>
          cases hcode
          rw [EncodeCode.run, htaken, nullable_field hafter]
          unfold fieldCodec nullableCodec
          cases fieldFlexible msg version _ <;> rfl
      | bytes | records =>
          cases hcode
          rw [EncodeCode.run, htaken, nullable_field hafter]
          unfold fieldCodec nullableCodec
          cases fieldFlexible msg version _ <;> rfl
      | struct inner =>
          cases hcode
          unfold fieldCodec nullableCodec
          cases v with
          | some v =>
              simp only [EncodeCode.run, marked, hput]
          | none =>
              simp only [EncodeCode.run, marked, hafter, decide_eq_true_iff]
          | _ => rfl
      | array elem =>
          obtain ⟨elemCode, helem, hcode⟩ := except_bind_eq_ok.mp hcode
          obtain ⟨elemCode', helem', _⟩ := except_bind_eq_ok.mp hcode'
          cases hcode
          have hitems := encodeElement_run hflexible hvalid hput helem helem'
          unfold fieldCodec nullableCodec
          cases v with
          | some v =>
              cases v with
              | array vs =>
                  rw [EncodeCode.run, htaken, hitems]
                  rfl
              | _ => rfl
          | none =>
              simp only [EncodeCode.run, nullableCounted, hafter, htaken, decide_eq_true_iff]
              rfl
          | _ => rfl

/-- The decode expression of a field is its codec's reader. -/
theorem decodeValue_run (hversions : f.versions.Contains version)
    (hget : ∀ name, (call name).get = callGet name) {code : DecodeCode}
    (hcode : decodeValue msg f = .ok code) :
    code.run (program.holds version) version sizeOf callGet =
      (fieldCodec msg version sizeOf call f).get := by
  have htaken {β : Type} (flexArm plainArm : β) :=
    flexArms_taken hflexible hvalid f flexArm plainArm
  have hnull := passes_nullable hvalid hversions
  obtain ⟨name, ftype, versions, nullability, tag, tagged, dflt, override, inner⟩ := f
  cases nullability with
  | none =>
      cases ftype with
      | bool | int8 | int16 | uint16 | int32 | uint32 | int64 | float64 | uuid =>
          cases hcode
          rfl
      | string =>
          cases hcode
          rw [DecodeCode.run, htaken]
          unfold fieldCodec valueCodec leafCodec
          cases fieldFlexible msg version _ <;> rfl
      | bytes | records =>
          cases hcode
          rw [DecodeCode.run, htaken]
          unfold fieldCodec valueCodec leafCodec
          cases fieldFlexible msg version _ <;> rfl
      | struct name =>
          cases hcode
          exact (hget name).symm
      | array elem =>
          obtain ⟨elemCode, helem, hcode⟩ := except_bind_eq_ok.mp hcode
          cases hcode
          have hitems := decodeElement_run hflexible hvalid hget helem
          have harm : ∀ e, noneArm (nullableExpr msg ⟨name, .array e, versions, none, tag, tagged,
            dflt, override, inner⟩) = .refuse := fun _ => rfl
          simp only [DecodeCode.run, htaken, hitems, harm, NoneArm.wrap, NoneArm.run, bind_pure]
          rfl
  | some range =>
      have hallowed := hnull range
      cases ftype with
      | bool | int8 | int16 | uint16 | int32 | uint32 | int64 | float64 | uuid => cases hcode
      | string =>
          cases hcode
          rw [DecodeCode.run, htaken, hallowed]
          unfold fieldCodec nullableCodec
          cases fieldFlexible msg version _ <;> rfl
      | bytes | records =>
          cases hcode
          rw [DecodeCode.run, htaken, hallowed]
          unfold fieldCodec nullableCodec
          cases fieldFlexible msg version _ <;> rfl
      | struct inner =>
          cases hcode
          simp only [DecodeCode.run, hallowed, ← hget]
          rfl
      | array elem =>
          obtain ⟨elemCode, helem, hcode⟩ := except_bind_eq_ok.mp hcode
          cases hcode
          have hitems := decodeElement_run hflexible hvalid hget helem
          have harm : ∀ e, noneArm (nullableExpr msg ⟨name, .array e, versions, some range, tag,
            tagged, dflt, override, inner⟩) =
              .null (testUnless (range.expr (msg.valid.intersect versions))) := fun _ => rfl
          simp only [DecodeCode.run, htaken, hitems, harm, NoneArm.wrap, NoneArm.run, hallowed]
          rfl

end Fields

section Structs

structure Generated (parseF64 : ParseF64) (msg : Message) (d : StructDef) (code : StructCode) :
    Prop where
  name : code.name = d.name
  defaults : List.Forall₂ (fun f c => generateDefault parseF64 f = .ok c) d.wireFields code.defaults
  encode : List.Forall₂ (fun f c => generateEncode msg f = .ok c) d.wireFields code.encode
  encodeTagged : List.Forall₂ (fun f c => generateEncodeTagged msg f = .ok c) d.taggedFields
    code.encodeTagged
  decode : List.Forall₂ (fun f c => generateDecode msg f = .ok c) d.wireFields code.decode
  decodeTagged : List.Forall₂ (fun f c => generateDecodeTagged msg f = .ok c) d.taggedFields
    code.decodeTagged

theorem generateStruct_ok {d : StructDef} {code : StructCode}
    (h : generateStruct parseF64 msg d = .ok code) : Generated parseF64 msg d code := by
  obtain ⟨defaults, hdefaults, h⟩ := except_bind_eq_ok.mp h
  obtain ⟨encode, hencode, h⟩ := except_bind_eq_ok.mp h
  obtain ⟨encodeTagged, hencodeTagged, h⟩ := except_bind_eq_ok.mp h
  obtain ⟨decode, hdecode, h⟩ := except_bind_eq_ok.mp h
  obtain ⟨decodeTagged, hdecodeTagged, h⟩ := except_bind_eq_ok.mp h
  cases h
  exact ⟨rfl, mapM_eq_ok.mp hdefaults, mapM_eq_ok.mp hencode, mapM_eq_ok.mp hencodeTagged,
    mapM_eq_ok.mp hdecode, mapM_eq_ok.mp hdecodeTagged⟩

variable {f : Field} {fs : List Field} {callPut : String → Value → Encode Bytes}
  {callGet : String → Decode Value} (sizeOf : SizeOf) {call : String → WireCodec Value}
  {d : StructDef} {code : StructCode} {dflts : List Value}

section Guarded

variable {enc : Emitted EncodeCode} {dec : Emitted DecodeCode}

theorem generateEncode_runs (hvalid : msg.valid.Contains version)
    (h : generateEncode msg f = .ok enc) : ∃ body, encodeFieldValue msg f = .ok body ∧
      enc.runs version = if f.versions.Contains version then some body else none := by
  obtain ⟨body, hbody, h⟩ := except_bind_eq_ok.mp h
  cases h
  exact ⟨body, hbody, emitGuarded_runs body (VersionRange.truth_expr _ _ _ hvalid)⟩

theorem generateDecode_runs (hvalid : msg.valid.Contains version)
    (h : generateDecode msg f = .ok dec) : ∃ body, decodeValue msg f = .ok body ∧
      dec.runs version = if f.versions.Contains version then some body else none := by
  obtain ⟨body, hbody, h⟩ := except_bind_eq_ok.mp h
  cases h
  exact ⟨body, hbody, emitGuarded_runs body (VersionRange.truth_expr _ _ _ hvalid)⟩

end Guarded

variable (hflexible : program.flexible = msg.flexible.expr msg.valid)
  (hvalid : msg.valid.Contains version)

include hflexible hvalid

theorem runGuarded_eq (hput : ∀ name, (call name).put = callPut name) {enc : Emitted EncodeCode}
    {dec : Emitted DecodeCode} (henc : generateEncode msg f = .ok enc)
    (hdec : generateDecode msg f = .ok dec) (dflt v : Value) :
    runGuarded (program.holds version) version callPut enc v =
      (wireCodec msg version sizeOf call f dflt).put v := by
  obtain ⟨body, hbody, hruns⟩ := generateEncode_runs hvalid henc
  obtain ⟨body', hbody', _⟩ := generateDecode_runs hvalid hdec
  rw [runGuarded, hruns]
  unfold wireCodec
  by_cases hin : f.versions.Contains version
  · rw [if_pos hin, if_pos hin]
    exact encodeFieldValue_run sizeOf hflexible hvalid hin hput hbody hbody' v
  · rw [if_neg hin, if_neg hin]
    rfl

theorem encodeWire_eq (hput : ∀ name, (call name).put = callPut name)
    {encs : List (Emitted EncodeCode)} {decs : List (Emitted DecodeCode)}
    (hencs : List.Forall₂ (fun f c => generateEncode msg f = .ok c) fs encs)
    (hdecs : List.Forall₂ (fun f c => generateDecode msg f = .ok c) fs decs)
    (hlen : dflts.length = fs.length) (vs : List Value) :
    encodeWire (program.holds version) version callPut encs vs =
      (Codec.each EncodeHalt.stuck (List.zipWith (wireCodec msg version sizeOf call) fs dflts)).put
        vs := by
  induction hencs generalizing decs dflts vs with
  | nil =>
      cases vs with
      | nil => rfl
      | cons v vs => rfl
  | cons henc _ ih =>
      obtain _ | ⟨hdec, hdecs⟩ := hdecs
      obtain _ | ⟨dflt, dflts⟩ := dflts
      · cases hlen
      · cases vs with
        | nil => rfl
        | cons v vs =>
            rw [encodeWire, runGuarded_eq sizeOf hflexible hvalid hput henc hdec dflt v,
              ih hdecs (Nat.succ.inj hlen) vs]
            rfl

theorem assigned_eq (hget : ∀ name, (call name).get = callGet name) {dec : Emitted DecodeCode}
    (hdec : generateDecode msg f = .ok dec) (dflt : Value) :
    assigned (program.holds version) version sizeOf callGet dec dflt =
      (wireCodec msg version sizeOf call f dflt).get := by
  obtain ⟨body, hbody, hruns⟩ := generateDecode_runs hvalid hdec
  rw [assigned, hruns]
  unfold wireCodec
  by_cases hin : f.versions.Contains version
  · rw [if_pos hin, if_pos hin]
    exact decodeValue_run sizeOf hflexible hvalid hin hget hbody
  · rw [if_neg hin, if_neg hin]
    rfl

theorem decodeWire_eq (hget : ∀ name, (call name).get = callGet name)
    {decs : List (Emitted DecodeCode)}
    (hdecs : List.Forall₂ (fun f c => generateDecode msg f = .ok c) fs decs)
    (hlen : dflts.length = fs.length) :
    decodeWire (program.holds version) version sizeOf callGet decs dflts =
      (Codec.each EncodeHalt.stuck
        (List.zipWith (wireCodec msg version sizeOf call) fs dflts)).get := by
  induction hdecs generalizing dflts with
  | nil => rfl
  | cons hdec _ ih =>
      obtain _ | ⟨dflt, dflts⟩ := dflts
      · cases hlen
      · rw [decodeWire, assigned_eq sizeOf hflexible hvalid hget hdec dflt, ih (Nat.succ.inj hlen)]
        rfl

section Tagged

variable {encs : List TaggedEncode} {decs : List TaggedDecode}

theorem taggedEncode_eq (hput : ∀ name, (call name).put = callPut name) {enc : TaggedEncode}
    {dec : TaggedDecode} (henc : generateEncodeTagged msg f = .ok enc)
    (hdec : generateDecodeTagged msg f = .ok dec) (v : Value) :
    enc.run (program.holds version) version callPut v =
      (knownTag msg version sizeOf call f).put v := by
  obtain ⟨body, hbody, henc⟩ := except_bind_eq_ok.mp henc
  obtain ⟨body', hbody', hdec⟩ := except_bind_eq_ok.mp hdec
  cases henc
  cases hdec
  obtain ⟨inner, hinner, hruns⟩ := generateEncode_runs hvalid hbody
  cases v with
  | some v =>
      simp only [TaggedEncode.run, KnownTag.put, knownTag, hruns, decide_eq_true_iff]
      by_cases hin : f.versions.Contains version
      · simp only [if_pos hin,
          encodeFieldValue_run sizeOf hflexible hvalid hin hput hinner hbody' v]
      · simp only [if_neg hin]
  | _ => rfl

theorem encodeKnown_eq (hput : ∀ name, (call name).put = callPut name)
    (hencs : List.Forall₂ (fun f c => generateEncodeTagged msg f = .ok c) fs encs)
    (hdecs : List.Forall₂ (fun f c => generateDecodeTagged msg f = .ok c) fs decs)
    (vs : List Value) :
    encodeKnown (program.holds version) version callPut encs vs =
      putKnownTags (fs.map (knownTag msg version sizeOf call)) vs := by
  induction hencs generalizing decs vs with
  | nil => cases vs <;> rfl
  | cons henc _ ih =>
      obtain _ | ⟨hdec, hdecs⟩ := hdecs
      cases vs with
      | nil => rfl
      | cons v vs =>
          rw [encodeKnown, taggedEncode_eq sizeOf hflexible hvalid hput henc hdec v,
            ih hdecs vs]
          rfl

theorem branchFor_eq (hget : ∀ name, (call name).get = callGet name)
    (hdecs : List.Forall₂ (fun f c => generateDecodeTagged msg f = .ok c) fs decs)
    (tag place : Nat) :
    branchFor (program.holds version) version sizeOf callGet tag decs place =
      (placeOf tag (fs.map (knownTag msg version sizeOf call)) place).map
        fun p => (p.1, p.2.codec.get) := by
  induction hdecs generalizing place with
  | nil => rfl
  | @cons f dec fs decs hdec _ ih =>
      obtain ⟨body, hbody, hdec⟩ := except_bind_eq_ok.mp hdec
      cases hdec
      have hpasses := passes_testUnless (VersionRange.truth_expr f.versions _ _ hvalid)
      rw [branchFor, List.map_cons, placeOf, ih, hpasses]
      by_cases hhere : tag = f.tag.getD 0 ∧ f.versions.Contains version
      · rw [if_pos ⟨hhere.1, decide_eq_true hhere.2⟩, if_pos ⟨hhere.1, decide_eq_true hhere.2⟩,
          decodeValue_run sizeOf hflexible hvalid hhere.2 hget hbody]
        rfl
      · rw [if_neg fun h => hhere ⟨h.1, of_decide_eq_true h.2⟩,
          if_neg fun h => hhere ⟨h.1, of_decide_eq_true h.2⟩]

end Tagged

omit hflexible hvalid in
theorem noTags_eq {ks : List KnownTag} (h : code.decodeTagged.length = ks.length) :
    code.noTags = noTags ks := by
  rw [StructCode.noTags, noTags, List.map_const', List.map_const', h]

/-- The encode of a struct is its codec's writer. -/
theorem run_eq (hput : ∀ name, (call name).put = callPut name)
    (hcode : Generated parseF64 msg d code)
    (hlen : dflts.length = d.wireFields.length) (v : Value) :
    code.run (program.holds version) version callPut (program.isFlexible version) v =
      (defCodec msg version sizeOf call d dflts).put v := by
  cases v with
  | struct wire tagged unknown =>
      have hwire := encodeWire_eq sizeOf hflexible hvalid hput hcode.encode hcode.decode hlen wire
      have hknown := encodeKnown_eq sizeOf hflexible hvalid hput hcode.encodeTagged
        hcode.decodeTagged tagged
      have hnone : code.encodeTagged = [] ↔
          d.taggedFields.map (knownTag msg version sizeOf call) = [] := by
        rw [List.map_eq_nil_iff, ← List.length_eq_zero_iff, ← List.length_eq_zero_iff,
          hcode.encodeTagged.length_eq]
      rw [StructCode.run, hwire, Program.isFlexible_eq hflexible hvalid]
      simp only [defCodec, structCodec, Codec.embed, Value.parts, Codec.pair, StructCode.encodeTags,
        hknown, hnone]
      cases msg.isFlexible version <;> rfl
  | _ => rfl

/-- The decode of a struct is its codec's reader. -/
theorem read_eq (hget : ∀ name, (call name).get = callGet name)
    (hcode : Generated parseF64 msg d code) (hlen : dflts.length = d.wireFields.length) :
    code.read (program.holds version) version sizeOf callGet (program.isFlexible version) dflts =
      (defCodec msg version sizeOf call d dflts).get := by
  have hwire := decodeWire_eq sizeOf hflexible hvalid hget hcode.decode hlen
  have hbranch := branchFor_eq sizeOf hflexible hvalid hget hcode.decodeTagged
  have hcount : code.decodeTagged.length =
      (d.taggedFields.map (knownTag msg version sizeOf call)).length := by
    rw [List.length_map, hcode.decodeTagged.length_eq]
  have hnone : code.decodeTagged = [] ↔
      d.taggedFields.map (knownTag msg version sizeOf call) = [] := by
    rw [← List.length_eq_zero_iff, ← List.length_eq_zero_iff, hcount]
  rw [StructCode.read, hwire, Program.isFlexible_eq hflexible hvalid]
  simp only [defCodec, structCodec, Codec.embed, Codec.pair, StructCode.decodeTags, hnone, hbranch,
    noTags_eq hcount]
  cases msg.isFlexible version with
  | true =>
      simp only [bind_assoc, pure_bind, if_true, sectionCodec]
  | false =>
      simp only [bind_assoc, pure_bind, Bool.false_eq_true, if_false, Codec.absent]

end Structs

section Programs

theorem length_of_mapM_some {α β : Type} {f : α → Option β} {as : List α} {bs : List β}
    (h : as.mapM f = some bs) : bs.length = as.length := by
  induction as generalizing bs with
  | nil =>
      cases h
      rfl
  | cons a as ih =>
      rw [List.mapM_cons] at h
      obtain ⟨b, _, h⟩ := Option.bind_eq_some_iff.mp h
      obtain ⟨bs, hbs, h⟩ := Option.bind_eq_some_iff.mp h
      cases h
      rw [List.length_cons, List.length_cons, ih hbs]

/-- What the generator made of a message. -/
theorem generateMessage_ok (h : generateMessage parseF64 msg = .ok program) :
    program.flexible = msg.flexible.expr msg.valid ∧
      List.Forall₂ (Generated parseF64 msg) msg.structs program.structs := by
  obtain ⟨_, _, h⟩ := except_bind_eq_ok.mp h
  obtain ⟨structs, hstructs, h⟩ := except_bind_eq_ok.mp h
  cases h
  exact ⟨rfl, (mapM_eq_ok.mp hstructs).imp fun _ _ => generateStruct_ok⟩

/-- The code found under a name is that of the struct found under it. -/
theorem find_eq {ds : List StructDef} {codes : List StructCode}
    (h : List.Forall₂ (Generated parseF64 msg) ds codes) (name : String) :
    Option.Rel (Generated parseF64 msg) (ds.find? fun d => d.name = name)
      (codes.find? fun code => code.name = name) := by
  induction h with
  | nil => exact .none
  | @cons d code ds codes hfirst _ ih =>
      rw [List.find?_cons, List.find?_cons, hfirst.name]
      by_cases hname : d.name = name
      · simp only [hname, decide_true]
        exact .some hfirst
      · simp only [hname, decide_false]
        exact ih

theorem wireDefaults_eq {d : StructDef} {code : StructCode} (h : Generated parseF64 msg d code)
    (defaults : String → Option Value) :
    code.wireDefaults defaults = d.wireFields.mapM (fieldDefault parseF64 defaults) := by
  refine (mapM_congr (h.defaults.imp fun f c hc => ?_)).symm
  obtain ⟨value, hvalue, hc⟩ := except_bind_eq_ok.mp hc
  cases hc
  simp only [fieldDefault, hvalue]
  rfl

/-- The emitted default is the schema's. -/
theorem defaultAt_eq (hstructs : List.Forall₂ (Generated parseF64 msg) msg.structs program.structs)
    (depth : Nat) : program.defaultAt depth = msg.defaultAt parseF64 depth := by
  induction depth with
  | zero => rfl
  | succ depth ih =>
      funext name
      have hfind : Option.Rel (Generated parseF64 msg) (msg.find name) (program.find name) :=
        find_eq hstructs name
      rw [Program.defaultAt, Message.defaultAt]
      cases hd : msg.find name with
      | none =>
          cases hcode : program.find name with
          | none => rfl
          | some code =>
              rw [hd, hcode] at hfind
              cases hfind
      | some d =>
          cases hcode : program.find name with
          | none =>
              rw [hd, hcode] at hfind
              cases hfind
          | some code =>
              rw [hd, hcode] at hfind
              obtain ⟨h⟩ := hfind
              have hnone : code.noTags = d.taggedFields.map fun _ => .none := by
                rw [StructCode.noTags, List.map_const', List.map_const', h.decodeTagged.length_eq]
              simp only [Option.bind_eq_bind, Option.bind_some, wireDefaults_eq h, ih, hnone]

theorem default_eq (hstructs : List.Forall₂ (Generated parseF64 msg) msg.structs program.structs)
    (name : String) : program.default name = msg.default parseF64 name := by
  rw [Program.default, Message.default, defaultAt_eq hstructs, hstructs.length_eq]

/-- A default is a struct with a value for each field on the wire. -/
theorem default_shape {name : String} {v : Value} (h : msg.default parseF64 name = some v) :
    ∃ d wire tagged unknown, msg.find name = some d ∧ v = .struct wire tagged unknown ∧
      wire.length = d.wireFields.length := by
  unfold Message.default at h
  cases hdepth : msg.structs.length with
  | zero =>
      rw [hdepth] at h
      cases h
  | succ depth =>
      rw [hdepth, Message.defaultAt] at h
      obtain ⟨d, hd, h⟩ := Option.bind_eq_some_iff.mp h
      obtain ⟨wire, hwire, h⟩ := Option.bind_eq_some_iff.mp h
      cases h
      exact ⟨d, wire, _, [], hd, rfl, length_of_mapM_some hwire⟩

/-- Every struct has a default: its literals are in range, and none holds itself. -/
def Message.HasDefaults (parseF64 : ParseF64) (msg : Message) : Prop :=
  ∀ d ∈ msg.structs, (msg.default parseF64 d.name).isSome = true

variable (sizeOf : SizeOf)

theorem generateMessage_decodes (h : generateMessage parseF64 msg = .ok program)
    (hvalid : msg.valid.Contains version) (depth : Nat) (name : String) :
    program.decode version sizeOf depth name =
      (msg.codec parseF64 version sizeOf depth name).get := by
  obtain ⟨hflexible, hstructs⟩ := generateMessage_ok h
  induction depth generalizing name with
  | zero => rfl
  | succ depth ih =>
      have hfind : Option.Rel (Generated parseF64 msg) (msg.find name) (program.find name) :=
        find_eq hstructs name
      rw [Program.decode, Message.codec, default_eq hstructs]
      cases hdefault : msg.default parseF64 name with
      | none => 
          cases program.find name <;> cases msg.find name <;> rfl
      | some v =>
          obtain ⟨d, wire, tagged, unknown, hd, rfl, hlen⟩ := default_shape hdefault
          rw [hd] at hfind ⊢
          cases hcode : program.find name with
          | none =>
              rw [hcode] at hfind
              cases hfind
          | some code =>
              rw [hcode] at hfind
              obtain ⟨hgenerated⟩ := hfind
              exact read_eq sizeOf hflexible hvalid (fun name => (ih name).symm) hgenerated hlen

theorem generateMessage_encodes (h : generateMessage parseF64 msg = .ok program)
    (hdefaults : msg.HasDefaults parseF64) (hvalid : msg.valid.Contains version) (depth : Nat)
    (name : String) :
    program.encode version depth name = (msg.codec parseF64 version sizeOf depth name).put := by
  obtain ⟨hflexible, hstructs⟩ := generateMessage_ok h
  induction depth generalizing name with
  | zero => rfl
  | succ depth ih =>
      funext v
      have hfind : Option.Rel (Generated parseF64 msg) (msg.find name) (program.find name) :=
        find_eq hstructs name
      rw [Program.encode, Message.codec]
      cases hd : msg.find name with
      | none =>
          rw [hd] at hfind
          cases hcode : program.find name with
          | none => rfl
          | some code =>
              rw [hcode] at hfind
              cases hfind
      | some d =>
          have hname : d.name = name := by simpa using List.find?_some hd
          obtain ⟨dflt, hdefault⟩ := Option.isSome_iff_exists.mp
            (hdefaults d (List.mem_of_find?_eq_some hd))
          rw [hname] at hdefault
          obtain ⟨d', wire, tagged, unknown, hd', rfl, hlen⟩ := default_shape hdefault
          rw [hd] at hfind hd'
          cases hd'
          rw [hdefault]
          cases hcode : program.find name with
          | none =>
              rw [hcode] at hfind
              cases hfind
          | some code =>
              rw [hcode] at hfind
              obtain ⟨hgenerated⟩ := hfind
              exact run_eq sizeOf hflexible hvalid (fun name => (ih name).symm) hgenerated hlen v

end Programs

def apiVersionsProgram : Program :=
  (generateMessage (fun _ => none) apiVersionsResponse).toOption.getD ⟨"", [], []⟩

theorem apiVersions_generated :
    generateMessage (fun _ => none) apiVersionsResponse = .ok apiVersionsProgram := rfl

theorem apiVersions_hasDefaults : apiVersionsResponse.HasDefaults fun _ => none := by
  unfold Message.HasDefaults
  decide +kernel

end Odradek.Codegen
