import Odradek.Codegen.Allocation
import Odradek.Codegen.CallDepth
import Odradek.Codegen.DecodeSafety
import Odradek.Protocol.RecordSets

/-!
The emitted code of any schema, from end to end: it means what the schema does,
a message that was sent is received, and a message that was received can be sent
again. What the schema has to promise is that its structs have defaults and that
no struct uses a tag twice.
-/

namespace Odradek.Codegen

open Library Library.Decoder Protocol

variable {parseF64 : ParseF64} {msg : Message} {version : Int16} {program : Program}
  {sizeOf : SizeOf} {depth : Nat} {name : String}

/-- The folded guards, the kept ones and the switches come to the plain meaning
of the schema at every version it is valid for. -/
theorem generateMessage_preserves (h : generateMessage parseF64 msg = .ok program)
    (hdefaults : msg.HasDefaults parseF64) (hvalid : msg.valid.Contains version)
    (sizeOf : SizeOf) (depth : Nat) (name : String) :
    program.encode version depth name = (msg.codec parseF64 version sizeOf depth name).put ∧
      program.decode version sizeOf depth name =
        (msg.codec parseF64 version sizeOf depth name).get :=
  ⟨generateMessage_encodes sizeOf h hdefaults hvalid depth name,
    generateMessage_decodes sizeOf h hvalid depth name⟩

theorem apiVersions_preserved :
    apiVersionsProgram.encode 4 2 "ApiVersionsResponse" =
        (apiVersionsResponse.codec (fun _ => none) 4 (fun _ => 40) 2 "ApiVersionsResponse").put ∧
      apiVersionsProgram.decode 4 (fun _ => 40) 2 "ApiVersionsResponse" =
        (apiVersionsResponse.codec (fun _ => none) 4 (fun _ => 40) 2 "ApiVersionsResponse").get :=
  generateMessage_preserves apiVersions_generated apiVersions_hasDefaults (by decide) _ 2 _

section Run

variable {α : Type} {d : Decode α} {bytes suffix rest : Bytes} {a : α} {cs : List Charge}
  {limits : Limits}

theorem runDecode_ok (h : runDecode limits d bytes = .ok (a, rest)) :
    ∃ t, d ⟨bytes, { budget := limits.budget bytes.length, decoded := 0 }⟩ = .ok a t ∧
      t.bytes = rest := by
  unfold runDecode at h
  split at h
  · rename_i t hdecode
    cases h
    exact ⟨t, hdecode, rfl⟩
  · cases h

/-- Under the default limits an encoding is read back exactly when the vectors it
asks for are within its budget. -/
theorem runDecode_default_iff (h : DecodesTo Ledger.charge suffix d bytes a cs) :
    runDecode .default d (bytes ++ suffix) = .ok (a, suffix) ↔
      peak 0 cs ≤ Limits.default.allocBytesFor (bytes ++ suffix).length := by
  refine ⟨fun hrun => ?_, runDecode_decodes h⟩
  rw [← spend_default]
  cases hspend : spend Ledger.charge cs
      { budget := Limits.default.budget (bytes ++ suffix).length, decoded := 0 } with
  | ok ledger => exact ⟨ledger, rfl⟩
  | error e =>
      obtain ⟨t, ht⟩ := (h _).2 e hspend
      rw [runDecode, ht] at hrun
      cases hrun

theorem runDecode_refused {e : Halt} (h : Decodes Ledger.charge d bytes a cs)
    (hspend : spend Ledger.charge cs
      { budget := limits.budget bytes.length, decoded := 0 } = .error e) :
    runDecode limits d bytes = .error e := by
  have hrefused := (h [] { budget := limits.budget bytes.length, decoded := 0 }).2 e hspend
  rw [List.append_nil] at hrefused
  obtain ⟨t, ht⟩ := hrefused
  rw [runDecode, ht]

theorem spend_no_panic {ledger : Ledger} {e : Halt}
    (h : spend Ledger.charge cs ledger = .error e) : e ≠ .panic := by
  induction cs generalizing ledger with
  | nil => cases h
  | cons c cs ih =>
      rw [spend] at h
      cases c with
      | item => exact ih h
      | grow oldBytes newBytes =>
          have hsafe := charge_grow_safe oldBytes newBytes ledger
          cases hcharge : Ledger.charge (.grow oldBytes newBytes) ledger with
          | ok ledger' =>
              rw [hcharge] at h
              exact ih h
          | error e' =>
              rw [hcharge] at h hsafe
              cases h
              exact hsafe

/-- Reading back never uses up the depth. -/
theorem DecodesTo.no_panic (h : DecodesTo Ledger.charge suffix d bytes a cs) (ledger : Ledger)
    (t : Reader Ledger) : d ⟨bytes ++ suffix, ledger⟩ ≠ .error .panic t := by
  intro hpanic
  cases hspend : spend Ledger.charge cs ledger with
  | ok ledger' =>
      rw [(h ledger).1 ledger' hspend] at hpanic
      cases hpanic
  | error e =>
      obtain ⟨u, hu⟩ := (h ledger).2 e hspend
      rw [hu] at hpanic
      cases hpanic
      exact spend_no_panic hspend rfl

theorem DecodesTo.deeper {d' : Decode α} (h : DecodesTo Ledger.charge suffix d bytes a cs)
    (hdeeper : GivesUp d d') : DecodesTo Ledger.charge suffix d' bytes a cs := by
  intro ledger
  rw [hdeeper.eq_of_no_panic (DecodesTo.no_panic h ledger)]
  exact h ledger

end Run

section Messages

variable {v : Value} {bytes rest : Bytes}

theorem generated_encodes_deeper {deeper : Nat} (hle : depth ≤ deeper)
    (hput : program.encode version depth name v = .ok bytes) :
    program.encode version deeper name v = .ok bytes := by
  have hmore : Stuck (program.encode version depth name v)
      (program.encode version deeper name v) := Program.encode_stuck hle name v
  obtain heq | hstuck := hmore
  · rw [← heq, hput]
  · rw [hput] at hstuck
    cases hstuck

/-- At every depth beyond the one of the encoding, it is read back for the same
charges. -/
theorem generated_decodes (h : generateMessage parseF64 msg = .ok program)
    (hdefaults : msg.HasDefaults parseF64) (hvalid : msg.valid.Contains version)
    (hapart : msg.TagsApart version)
    (hdom : (msg.codec parseF64 version sizeOf depth name).Domain v)
    (hput : program.encode version depth name v = .ok bytes) (hcap : bytes.length ≤ i64Max)
    {deeper : Nat} (hle : depth ≤ deeper) :
    Decodes Ledger.charge (program.decode version sizeOf deeper name) bytes v
      (msg.charges sizeOf version depth name v) := by
  rw [generateMessage_encodes sizeOf h hdefaults hvalid depth name] at hput
  have hread := Message.codec_charges hapart depth name v bytes hdom hput hcap
  rw [← generateMessage_decodes sizeOf h hvalid depth name] at hread
  exact fun suffix => DecodesTo.deeper (hread suffix) (Program.decode_givesUp hle name)

/-- What the emitted encode wrote the emitted decode reads, whatever follows, and
so at every depth beyond; what it charges to a ledger is a matter of the value. -/
theorem generated_reads_back (h : generateMessage parseF64 msg = .ok program)
    (hdefaults : msg.HasDefaults parseF64) (hvalid : msg.valid.Contains version)
    (hapart : msg.TagsApart version)
    (hdom : (msg.codec parseF64 version sizeOf depth name).Domain v)
    (hput : program.encode version depth name v = .ok bytes) (hcap : bytes.length ≤ i64Max)
    {deeper : Nat} (hle : depth ≤ deeper) :
    program.encode version deeper name v = .ok bytes ∧
      Decodes Ledger.charge (program.decode version sizeOf deeper name) bytes v
        (msg.charges sizeOf version depth name v) ∧
      ∀ suffix,
        runDecode .unlimited (program.decode version sizeOf deeper name) (bytes ++ suffix) =
          .ok (v, suffix) ∧
        (runDecode .default (program.decode version sizeOf deeper name) (bytes ++ suffix) =
            .ok (v, suffix) ↔
          peak 0 (msg.charges sizeOf version depth name v) ≤
            Limits.default.allocBytesFor (bytes ++ suffix).length) := by
  have hread := generated_decodes h hdefaults hvalid hapart hdom hput hcap hle
  exact ⟨generated_encodes_deeper hle hput, hread,
    fun suffix => ⟨runDecode_unlimited (hread suffix), runDecode_default_iff (hread suffix)⟩⟩

/-- One api, one tag the schema knows and one it does not. -/
def apiVersionsSample : Value :=
  .struct [.int16 35, .array [.struct [.int16 18, .int16 0, .int16 3] [] []], .int32 0]
    [.none, .none, .none, .some (.bool true)] [{ tag := 9, data := [5] }]

abbrev apiVersionsBytes : Bytes :=
  [0, 35, 2, 0, 18, 0, 0, 0, 3, 0, 0, 0, 0, 0, 2, 3, 1, 1, 9, 1, 5]

theorem apiVersions_tagsApart : apiVersionsResponse.TagsApart 3 := by
  unfold Message.TagsApart
  decide +kernel

theorem apiVersions_encodes :
    apiVersionsProgram.encode 3 2 "ApiVersionsResponse" apiVersionsSample =
      .ok apiVersionsBytes := rfl

theorem apiVersions_domain :
    (apiVersionsResponse.codec (fun _ => none) 3 (fun _ => 40) 2 "ApiVersionsResponse").Domain
      apiVersionsSample := by
  refine ⟨(_, _, _), rfl, ⟨trivial, ?_, trivial, rfl⟩, ?_, ?_⟩
  · intro v hv
    obtain rfl := List.mem_singleton.mp hv
    exact ⟨⟨(_, _, _), rfl, ⟨trivial, trivial, trivial, rfl⟩, .nil, .nil, nofun⟩, nofun⟩
  · exact .cons trivial (.cons trivial (.cons trivial (.cons ⟨rfl, trivial⟩ .nil)))
  · exact ⟨⟨List.pairwise_singleton _ _, by decide⟩, by decide⟩

theorem apiVersions_decodes :
    runDecode .unlimited (apiVersionsProgram.decode 3 (fun _ => 40) 2 "ApiVersionsResponse")
      apiVersionsBytes = .ok (apiVersionsSample, []) := by
  have hlawful : LawfulWire
      (apiVersionsResponse.codec (fun _ => none) 3 (fun _ => 40) 2 "ApiVersionsResponse") :=
    Message.codec_lawful apiVersions_tagsApart 2 _
  have hvalid : apiVersionsResponse.valid.Contains 3 := by decide
  have hput := apiVersions_encodes
  rw [generateMessage_encodes (fun _ => 40) apiVersions_generated apiVersions_hasDefaults hvalid]
    at hput
  obtain ⟨cs, hread⟩ := hlawful.reads_back _ _ apiVersions_domain hput (by decide)
  rw [generateMessage_decodes (fun _ => 40) apiVersions_generated hvalid]
  have hrun := runDecode_unlimited (hread [])
  rwa [List.append_nil] at hrun

theorem apiVersions_reads_back :
    apiVersionsProgram.encode 3 5 "ApiVersionsResponse" apiVersionsSample =
        .ok apiVersionsBytes ∧
      Decodes Ledger.charge
        (apiVersionsProgram.decode 3 (fun _ => 40) 5 "ApiVersionsResponse")
        apiVersionsBytes apiVersionsSample
        (apiVersionsResponse.charges (fun _ => 40) 3 2 "ApiVersionsResponse" apiVersionsSample) ∧
      ∀ suffix,
        runDecode .unlimited
            (apiVersionsProgram.decode 3 (fun _ => 40) 5 "ApiVersionsResponse")
            (apiVersionsBytes ++ suffix) = .ok (apiVersionsSample, suffix) ∧
        (runDecode .default
              (apiVersionsProgram.decode 3 (fun _ => 40) 5 "ApiVersionsResponse")
              (apiVersionsBytes ++ suffix) = .ok (apiVersionsSample, suffix) ↔
          peak 0 (apiVersionsResponse.charges (fun _ => 40) 3 2 "ApiVersionsResponse"
              apiVersionsSample) ≤
            Limits.default.allocBytesFor (apiVersionsBytes ++ suffix).length) :=
  generated_reads_back apiVersions_generated apiVersions_hasDefaults (by decide)
    apiVersions_tagsApart apiVersions_domain apiVersions_encodes (by decide) (by decide)

example : peak 0 (apiVersionsResponse.charges (fun _ => 40) 3 2 "ApiVersionsResponse"
    apiVersionsSample) = 480 := by
  decide +kernel

/-- Without limits a message is received as it was sent, and what follows it is
left. -/
theorem generated_roundTrips (h : generateMessage parseF64 msg = .ok program)
    (hdefaults : msg.HasDefaults parseF64) (hvalid : msg.valid.Contains version)
    (hapart : msg.TagsApart version)
    (hdom : (msg.codec parseF64 version sizeOf depth name).Domain v)
    (hput : program.encode version depth name v = .ok bytes) (hcap : bytes.length ≤ i64Max)
    {deeper : Nat} (hle : depth ≤ deeper) (suffix : Bytes) :
    runDecode .unlimited (program.decode version sizeOf deeper name) (bytes ++ suffix) =
      .ok (v, suffix) :=
  runDecode_unlimited (generated_decodes h hdefaults hvalid hapart hdom hput hcap hle suffix)

theorem apiVersions_roundTrips :
    runDecode .unlimited (apiVersionsProgram.decode 3 (fun _ => 40) 5 "ApiVersionsResponse")
      (apiVersionsBytes ++ [7, 7]) = .ok (apiVersionsSample, [7, 7]) :=
  generated_roundTrips apiVersions_generated apiVersions_hasDefaults (by decide)
    apiVersions_tagsApart apiVersions_domain apiVersions_encodes (by decide) (by decide) [7, 7]

/-- Two fields under one tag, which the generator does not look for. -/
def twinTags : Message where
  name := "TwinTags"
  valid := ⟨0, 0⟩
  flexible := ⟨0, 32767⟩
  fields := [
    ⟨"First", .int8, ⟨0, 32767⟩, none, some 0, some ⟨0, 32767⟩, none, none, none⟩,
    ⟨"Second", .int8, ⟨0, 32767⟩, none, some 0, some ⟨0, 32767⟩, none, none, none⟩]
  commonStructs := []

def twinProgram : Program :=
  (generateMessage (fun _ => none) twinTags).toOption.getD ⟨"", [], []⟩

def twinSample : Value := .struct [] [.some (.int8 1), .some (.int8 2)] []

/-- Both are written under it, and the decoder refuses the second. -/
theorem twinTags_refused :
    generateMessage (fun _ => none) twinTags = .ok twinProgram ∧
      (twinTags.HasDefaults fun _ => none) ∧ twinTags.valid.Contains 0 ∧
      (twinTags.codec (fun _ => none) 0 (fun _ => 40) 1 "TwinTags").Domain twinSample ∧
      twinProgram.encode 0 1 "TwinTags" twinSample = .ok [2, 0, 1, 1, 0, 1, 2] ∧
      runDecode .unlimited (twinProgram.decode 0 (fun _ => 40) 1 "TwinTags")
        [2, 0, 1, 1, 0, 1, 2] = .error (.error (.taggedFieldOrder 0 0)) := by
  refine ⟨rfl, ?_, by decide, ?_, rfl, rfl⟩
  · unfold Message.HasDefaults
    decide +kernel
  · refine ⟨(_, _, _), rfl, rfl, .cons ⟨rfl, trivial⟩ (.cons ⟨rfl, trivial⟩ .nil), ?_⟩
    exact ⟨⟨.nil, nofun⟩, nofun⟩

/-- A value a message may carry is only refused for a length. -/
theorem generated_refuses (h : generateMessage parseF64 msg = .ok program)
    (hdefaults : msg.HasDefaults parseF64) (hvalid : msg.valid.Contains version)
    (hapart : msg.TagsApart version)
    (hdom : (msg.codec parseF64 version sizeOf depth name).Domain v) :
    (∃ bytes, program.encode version depth name v = .ok bytes) ∨
      ∃ len max, program.encode version depth name v = .error (.error (.tooLong len max)) := by
  rw [generateMessage_encodes sizeOf h hdefaults hvalid depth name]
  cases hput : (msg.codec parseF64 version sizeOf depth name).put v with
  | ok bytes => exact .inl ⟨bytes, rfl⟩
  | error e =>
      obtain ⟨len, max, rfl⟩ := (Message.codec_lawful hapart depth name).refuses v e hdom hput
      exact .inr ⟨len, max, rfl⟩

theorem apiVersions_refuses :
    (∃ bytes, apiVersionsProgram.encode 3 2 "ApiVersionsResponse" apiVersionsSample = .ok bytes) ∨
      ∃ len max, apiVersionsProgram.encode 3 2 "ApiVersionsResponse" apiVersionsSample =
        .error (.error (.tooLong len max)) :=
  generated_refuses apiVersions_generated apiVersions_hasDefaults (by decide)
    apiVersions_tagsApart apiVersions_domain

/-- What the emitted decode accepts, from whatever bytes, the emitted encode writes
in no more of them. -/
theorem generated_rewrites (h : generateMessage parseF64 msg = .ok program)
    (hdefaults : msg.HasDefaults parseF64) (hvalid : msg.valid.Contains version)
    (hapart : msg.TagsApart version) {limits : Limits}
    (hrun : runDecode limits (program.decode version sizeOf depth name) bytes = .ok (v, rest)) :
    (msg.codec parseF64 version sizeOf depth name).Domain v ∧
      ∃ used again, bytes = used ++ rest ∧ program.encode version depth name v = .ok again ∧
        again.length ≤ used.length := by
  obtain ⟨t, hget, hrest⟩ := runDecode_ok hrun
  rw [generateMessage_decodes sizeOf h hvalid depth name] at hget
  obtain ⟨hdom, used, again, hused, hput, hle, _⟩ :=
    (Message.codec_lawful hapart depth name).settles _ v t hget
  simp only [hrest] at hused
  rw [← generateMessage_encodes sizeOf h hdefaults hvalid depth name] at hput
  exact ⟨hdom, used, again, hused, hput, hle⟩

/-- What the emitted decode accepts, from whatever bytes, the emitted encode
writes in no more of them, and then it is read as the same value. -/
theorem generated_settles (h : generateMessage parseF64 msg = .ok program)
    (hdefaults : msg.HasDefaults parseF64) (hvalid : msg.valid.Contains version)
    (hapart : msg.TagsApart version) {limits : Limits}
    (hrun : runDecode limits (program.decode version sizeOf depth name) bytes = .ok (v, rest)) :
    (msg.codec parseF64 version sizeOf depth name).Domain v ∧
      ∃ used again, bytes = used ++ rest ∧ program.encode version depth name v = .ok again ∧
        again.length ≤ used.length ∧
        (bytes.length ≤ i64Max → ∀ suffix,
          runDecode .unlimited (program.decode version sizeOf depth name) (again ++ suffix) =
            .ok (v, suffix)) := by
  obtain ⟨hdom, used, again, hused, hput, hle⟩ :=
    generated_rewrites h hdefaults hvalid hapart hrun
  refine ⟨hdom, used, again, hused, hput, hle, fun hcap suffix => ?_⟩
  have hshort : again.length ≤ i64Max := by
    rw [hused, List.length_append] at hcap
    omega
  exact runDecode_unlimited
    (generated_decodes h hdefaults hvalid hapart hdom hput hshort (Nat.le_refl _) suffix)

theorem apiVersions_settles :
    (apiVersionsResponse.codec (fun _ => none) 3 (fun _ => 40) 2 "ApiVersionsResponse").Domain
        apiVersionsSample ∧
      ∃ used again, apiVersionsBytes = used ++ [] ∧
        apiVersionsProgram.encode 3 2 "ApiVersionsResponse" apiVersionsSample = .ok again ∧
        again.length ≤ used.length ∧
        (apiVersionsBytes.length ≤ i64Max → ∀ suffix,
          runDecode .unlimited
              (apiVersionsProgram.decode 3 (fun _ => 40) 2 "ApiVersionsResponse")
              (again ++ suffix) = .ok (apiVersionsSample, suffix)) :=
  generated_settles apiVersions_generated apiVersions_hasDefaults (by decide)
    apiVersions_tagsApart apiVersions_decodes

end Messages

section Layouts

def Field.ranges (f : Field) : List VersionRange :=
  f.versions :: (f.nullable.toList ++ f.flexibleOverride.toList)

/-- No range of the message tells the two versions apart. -/
structure Message.Alike (msg : Message) (version other : Int16) : Prop where
  flexible : msg.flexible.Contains version ↔ msg.flexible.Contains other
  fields : ∀ d ∈ msg.structs, ∀ f ∈ d.fields, ∀ range ∈ f.ranges,
    range.Contains version ↔ range.Contains other

variable {other : Int16} {call : String → WireCodec Value} {f : Field}

theorem fieldCodec_alike (hflexible : msg.flexible.Contains version ↔ msg.flexible.Contains other)
    (h : ∀ range ∈ f.ranges, range.Contains version ↔ range.Contains other) :
    fieldCodec msg version sizeOf call f = fieldCodec msg other sizeOf call f := by
  have hlayout : fieldFlexible msg version f = fieldFlexible msg other f := by
    unfold fieldFlexible
    cases hoverride : f.flexibleOverride with
    | none => simp only [Message.isFlexible, hflexible]
    | some range => simp only [h range (by simp [Field.ranges, hoverride])]
  unfold fieldCodec
  rw [hlayout]
  cases hnullable : f.nullable with
  | none => rfl
  | some range => simp only [h range (by simp [Field.ranges, hnullable])]

/-- Alike versions have one codec. -/
theorem Message.codec_alike (h : msg.Alike version other) (depth : Nat) :
    msg.codec parseF64 version sizeOf depth = msg.codec parseF64 other sizeOf depth := by
  induction depth with
  | zero => rfl
  | succ depth ih =>
      funext name
      unfold Message.codec
      split
      · rename_i d defaults _ _ hd _
        have hmem : d ∈ msg.structs := List.mem_of_find?_eq_some hd
        have hfield : ∀ f ∈ d.fields,
            fieldCodec msg version sizeOf (msg.codec parseF64 other sizeOf depth) f =
              fieldCodec msg other sizeOf (msg.codec parseF64 other sizeOf depth) f :=
          fun f hf => fieldCodec_alike h.flexible (h.fields d hmem f hf)
        have hversions : ∀ f ∈ d.fields, f.versions.Contains version ↔ f.versions.Contains other :=
          fun f hf => h.fields d hmem f hf f.versions List.mem_cons_self
        have hwire :
          List.zipWith (wireCodec msg version sizeOf (msg.codec parseF64 other sizeOf depth))
            d.wireFields defaults =
              List.zipWith (wireCodec msg other sizeOf (msg.codec parseF64 other sizeOf depth))
                d.wireFields defaults := by
          rw [← List.map_uncurry_zip_eq_zipWith, ← List.map_uncurry_zip_eq_zipWith]
          refine List.map_congr_left fun p hp => ?_
          have hf := mem_wireFields (List.of_mem_zip hp).1
          show wireCodec _ _ _ _ p.1 p.2 = wireCodec _ _ _ _ p.1 p.2
          simp only [wireCodec, hfield p.1 hf, hversions p.1 hf]
        have htags : d.taggedFields.map (knownTag msg version sizeOf
              (msg.codec parseF64 other sizeOf depth)) =
            d.taggedFields.map
              (knownTag msg other sizeOf (msg.codec parseF64 other sizeOf depth)) :=
          List.map_congr_left fun f hf => by
            simp only [knownTag, hfield f (mem_taggedFields hf), hversions f (mem_taggedFields hf)]
        rw [ih]
        simp only [defCodec, hwire, htags, Message.isFlexible, h.flexible]
      · rfl

/-- Versions that no range tells apart are one format, for the emitted code too. -/
theorem generated_alike (h : generateMessage parseF64 msg = .ok program)
    (hdefaults : msg.HasDefaults parseF64) (hvalid : msg.valid.Contains version)
    (hother : msg.valid.Contains other) (halike : msg.Alike version other) (sizeOf : SizeOf)
    (depth : Nat) (name : String) :
    program.encode version depth name = program.encode other depth name ∧
      program.decode version sizeOf depth name = program.decode other sizeOf depth name := by
  have hcodec : msg.codec parseF64 version sizeOf depth name =
      msg.codec parseF64 other sizeOf depth name :=
    congrFun (Message.codec_alike halike depth) name
  constructor
  · rw [generateMessage_encodes sizeOf h hdefaults hvalid depth name,
      generateMessage_encodes sizeOf h hdefaults hother depth name, hcodec]
  · rw [generateMessage_decodes sizeOf h hvalid depth name,
      generateMessage_decodes sizeOf h hother depth name, hcodec]

theorem apiVersions_alike :
    apiVersionsProgram.encode 3 2 "ApiVersionsResponse" =
        apiVersionsProgram.encode 4 2 "ApiVersionsResponse" ∧
      apiVersionsProgram.decode 3 (fun _ => 40) 2 "ApiVersionsResponse" =
        apiVersionsProgram.decode 4 (fun _ => 40) 2 "ApiVersionsResponse" :=
  generated_alike apiVersions_generated apiVersions_hasDefaults (by decide) (by decide)
    ⟨by decide, by decide +kernel⟩ _ 2 _

end Layouts

end Odradek.Codegen
