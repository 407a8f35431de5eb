import Odradek.Codegen.CallDepth
import Odradek.Codegen.Preservation
import Odradek.Codegen.WireLaws
import Odradek.Protocol.WireSafety

/-!
The emitted decode on any bytes and at any version, one outside the valid range
included: it never panics, it makes no more elements than there are bytes, and
its calls nest no deeper than the bytes allow. A call that comes after a byte was
read sees fewer bytes; a struct held by value comes first in no more calls than
it takes to build its default.
-/

namespace Odradek.Codegen

open Library Library.Decoder Protocol

variable {parseF64 : ParseF64} {msg : Message} {version : Int16} {program : Program}
  {holds : Text → Bool} {sizeOf : SizeOf} {call : String → Decode Value} {n : Nat}

section Leaves

theorem Get.run_safe (g : Get) : Safe g.run := by
  cases g with
  | bool => exact Frugal.bind (Frugal.bind (getFixed_safe 1) fun _ => .pure _) fun _ => .pure _
  | i8 => exact Frugal.bind (Frugal.bind (getFixed_safe 1) fun _ => .pure _) fun _ => .pure _
  | i16 => exact Frugal.bind getI16_safe fun _ => .pure _
  | u16 => exact Frugal.bind (Frugal.bind (getFixed_safe 2) fun _ => .pure _) fun _ => .pure _
  | i32 => exact Frugal.bind getI32_safe fun _ => .pure _
  | u32 => exact Frugal.bind (Frugal.bind (getFixed_safe 4) fun _ => .pure _) fun _ => .pure _
  | i64 => exact Frugal.bind (Frugal.bind (getFixed_safe 8) fun _ => .pure _) fun _ => .pure _
  | f64 => exact Frugal.bind (Frugal.bind (getFixed_safe 8) fun _ => .pure _) fun _ => .pure _
  | uuid => exact Frugal.bind (takeBytes_safe uuidLen) fun _ => .pure _
  | string =>
      exact Frugal.bind (Frugal.bind getNullableString_safe notNull_safe) fun _ => .pure _
  | compactString =>
      exact Frugal.bind (Frugal.bind getCompactNullableString_safe notNull_safe) fun _ => .pure _
  | nullableString => exact Frugal.bind getNullableString_safe fun _ => .pure _
  | compactNullableString => exact Frugal.bind getCompactNullableString_safe fun _ => .pure _
  | nullableBytes => exact Frugal.bind getNullableBytes_safe fun _ => .pure _
  | compactNullableBytes => exact Frugal.bind getCompactNullableBytes_safe fun _ => .pure _

theorem Get.run_consumes (g : Get) : Consumes g.run := by
  have hread {α : Type} {d : Decode α} {wrap : α → Value} (h : Consumes d) :
      Consumes (do let a ← d; pure (wrap a)) :=
    h.bind_left fun _ _ _ _ hpure => by cases hpure; exact Nat.le_refl _
  cases g with
  | bool => exact hread getBool_rewrites.consumes
  | i8 => exact hread getI8_rewrites.consumes
  | i16 => exact hread getI16_rewrites.consumes
  | u16 => exact hread getU16_rewrites.consumes
  | i32 => exact hread getI32_rewrites.consumes
  | u32 => exact hread getU32_rewrites.consumes
  | i64 => exact hread getI64_rewrites.consumes
  | f64 => exact hread getF64_rewrites.consumes
  | uuid => exact hread getUuid_consumes
  | string => exact hread getString_rewrites.consumes
  | compactString => exact hread getCompactString_rewrites.consumes
  | nullableString => exact hread getNullableString_rewrites.consumes
  | compactNullableString => exact hread getCompactNullableString_rewrites.consumes
  | nullableBytes => exact hread getNullableBytes_rewrites.consumes
  | compactNullableBytes => exact hread getCompactNullableBytes_rewrites.consumes

theorem LenCall.get_safe (len : LenCall) : Safe len.get := by
  cases len with
  | classic => exact getArrayLen_safe
  | compact => exact getCompactArrayLen_safe

theorem nullWhere_safe (allowed : Bool) : Safe (nullWhere allowed) :=
  safe_ite (.pure _) (safe_fail _)

/-- Whatever the version makes of a switch, it takes one of its arms. -/
theorem flexArms_either {β : Type} (flex : Text) (flexArm plainArm : β) :
    (flexArms flex flexArm plainArm).taken holds = flexArm ∨
      (flexArms flex flexArm plainArm).taken holds = plainArm := by
  unfold flexArms
  split
  · exact .inl rfl
  · split
    · exact .inr rfl
    · simp only [Switched.taken]
      split
      · exact .inl rfl
      · exact .inr rfl

end Leaves

section Fields

variable {f : Field}

/-- The structs a field calls once it has read something. -/
def SafeBelow (n : Nat) (call : String → Decode Value) (ftype : FieldType) : Prop :=
  ∀ name, structNameOf ftype = some name → ∀ m < n, SafeTo m (call name)

theorem decodeElement_safe {elem : FieldType} {code : ElementCode Get}
    (hcode : decodeElement msg f elem = .ok code) (hcalls : SafeBelow n call elem) {m : Nat}
    (hm : m < n) : SafeTo m (code.decode holds call) ∧ Consumes (code.decode holds call) := by
  have hleaf (sw : Switched Get) : SafeTo m ((ElementCode.call sw).decode holds call) ∧
      Consumes ((ElementCode.call sw).decode holds call) :=
    ⟨(Get.run_safe (sw.taken holds)).upTo, Get.run_consumes (sw.taken holds)⟩
  cases elem with
  | bool | int8 | int16 | uint16 | int32 | uint32 | int64 | float64 | uuid | string =>
      cases hcode
      exact hleaf _
  | struct name =>
      cases hcode
      exact ⟨progressing_safe (hcalls name rfl m hm), progressing_consumes _⟩
  | bytes => cases hcode
  | records => cases hcode
  | array elem => cases hcode

/-- A field at a version of its own choosing. -/
theorem decodeValue_safe {code : DecodeCode} (hcode : decodeValue msg f = .ok code)
    (hvalue : ∀ name, f.ftype = .struct name → f.nullable = none → SafeTo n (call name))
    (hcalls : SafeBelow n call f.ftype) :
    SafeTo n (code.run holds version sizeOf call) := by
  obtain ⟨name, ftype, versions, nullability, tag, tagged, dflt, override, inner⟩ := f
  have harray (len : Switched LenCall) (null : NoneArm) (elem : FieldType)
    (elemCode : ElementCode Get)
      (helem : ∀ m < n, SafeTo m (elemCode.decode holds call) ∧
        Consumes (elemCode.decode holds call)) :
      SafeTo n ((DecodeCode.items len null elem elemCode).run holds version sizeOf call) := by
    refine FrugalTo.bind_shorter (LenCall.get_safe _).upTo (LenCall.get_rewrites _).consumes
      fun count m hm => ?_
    cases count with
    | some count =>
        obtain ⟨hsafe, hconsumes⟩ := helem m hm
        exact ThriftyTo.bind (ThriftyTo.bind (getItems_breaksEven _ count hsafe hconsumes _)
          fun _ => (Frugal.pure _).upTo.thrifty) fun _ => (Frugal.pure _).upTo.thrifty
    | none =>
        cases null with
        | refuse => exact (safe_fail _).upTo.thrifty
        | null test => exact (nullWhere_safe _).upTo.thrifty
  have hleaf (sw : Switched Get) : SafeTo n ((DecodeCode.get sw).run holds version sizeOf call) :=
    (Get.run_safe (sw.taken holds)).upTo
  have hnullable (test : Option Text) (sw : Switched Get) :
      SafeTo n ((DecodeCode.nullable test sw).run holds version sizeOf call) :=
    (Frugal.bind (Get.run_safe (sw.taken holds)) fun raw =>
      safe_ite (nullWhere_safe _) (.pure raw)).upTo
  have hrequired (flex : Text) : SafeTo n ((DecodeCode.notNull
      (flexArms flex .compactNullableBytes .nullableBytes)).run holds version sizeOf call) := by
    have hunwrapped {d : Decode (Option Bytes)} (h : Safe d) :
        Safe (do let raw ← (do let a ← d; pure (Value.ofOption .bytes a)); unwrapped raw) := by
      rw [getNullable_unwrapped]
      exact Frugal.bind (Frugal.bind h notNull_safe) fun _ => .pure _
    have heither : (flexArms flex Get.compactNullableBytes Get.nullableBytes).taken holds =
          Get.compactNullableBytes ∨
        (flexArms flex Get.compactNullableBytes Get.nullableBytes).taken holds =
          Get.nullableBytes := flexArms_either _ _ _
    rw [DecodeCode.run]
    obtain heq | heq := heither
    · rw [heq]
      exact (hunwrapped getCompactNullableBytes_safe).upTo
    · rw [heq]
      exact (hunwrapped getNullableBytes_safe).upTo
  cases nullability with
  | none =>
      cases ftype with
      | bool | int8 | int16 | uint16 | int32 | uint32 | int64 | float64 | uuid | string =>
          cases hcode
          exact hleaf _
      | bytes | records =>
          cases hcode
          exact hrequired _
      | struct inner =>
          cases hcode
          exact hvalue inner rfl rfl
      | array elem =>
          obtain ⟨elemCode, helem, hcode⟩ := except_bind_eq_ok.mp hcode
          cases hcode
          exact harray _ _ elem elemCode fun m hm => decodeElement_safe helem hcalls hm
  | some range =>
      cases ftype with
      | bool | int8 | int16 | uint16 | int32 | uint32 | int64 | float64 | uuid => cases hcode
      | string | bytes | records =>
          cases hcode
          exact hnullable _ _
      | struct inner =>
          cases hcode
          refine FrugalTo.bind_shorter (Frugal.bind (getFixed_safe 1) fun _ => .pure _).upTo
            getI8_rewrites.consumes fun marker m hm => ?_
          split
          · exact (nullWhere_safe _).upTo.thrifty
          · exact (FrugalTo.bind (hcalls inner rfl m hm) fun _ => (Frugal.pure _).upTo).thrifty
      | array elem =>
          obtain ⟨elemCode, helem, hcode⟩ := except_bind_eq_ok.mp hcode
          cases hcode
          exact harray _ _ elem elemCode fun m hm => decodeElement_safe helem hcalls hm

end Fields

section Tagged

variable {branch : Nat → Option (Nat × Decode Value)} {m : Nat}

theorem usedUp_safe {α : Type} (a : α) : Safe (usedUp a) :=
  Frugal.bind Frugal.remaining fun _ => Frugal.bind (safe_failIf _ _) fun _ => .pure a

theorem takeTagged_adds {raw : RawTaggedField}
    (h : ∀ place d, branch raw.tag = some (place, d) → SafeTo raw.data.length d)
    (tagged : List Value) (unknown : Vec RawTaggedField) :
    BoundedTo (· = Halt.panic) (Adds Ledger.decoded (raw.data.length + 1)) m
      (takeTagged branch tagged unknown raw) := by
  cases hbranch : branch raw.tag with
  | none =>
      simp only [takeTagged, hbranch]
      exact (BoundedTo.bind_adds (push_adds rawTaggedFieldSize unknown raw) fun _ =>
        .pure _ (Adds.refl 0)).imp fun _ _ h => h.mono (by omega)
  | some found =>
      obtain ⟨place, d⟩ := found
      simp only [takeTagged, hbranch]
      exact (BoundedTo.bind_adds (FrugalTo.within (FrugalTo.bind (h place d hbranch) fun v =>
        (usedUp_safe v).upTo)) fun _ => .pure _ (Adds.refl 1))

theorem takeAllTagged_adds {raws : List RawTaggedField}
    (h : ∀ raw ∈ raws, ∀ place d, branch raw.tag = some (place, d) → SafeTo raw.data.length d)
    (tagged : List Value) (unknown : Vec RawTaggedField) :
    BoundedTo (· = Halt.panic) (Adds Ledger.decoded (keepingCost raws)) m
      (takeAllTagged branch raws tagged unknown) := by
  induction raws generalizing tagged unknown with
  | nil => exact .pure _ (Adds.refl 0)
  | cons raw raws ih =>
      have hrest := ih fun other hmem => h other (List.mem_cons_of_mem _ hmem)
      rw [keepingCost, List.map_cons, List.sum_cons]
      exact BoundedTo.bind_adds (takeTagged_adds (h raw List.mem_cons_self) tagged unknown)
        fun step => hrest step.1 step.2

/-- What is read of a section pays for its fields a second time. -/
theorem getTaggedFields_then {β : Type} {f : List RawTaggedField → Decode β}
    (hf : ∀ raws m, (∀ raw ∈ raws, raw.data.length < n) →
      BoundedTo (· = Halt.panic) (Adds Ledger.decoded (keepingCost raws)) m (f raws)) :
    SafeTo n (getTaggedFields >>= f) := by
  refine BoundedTo.bind_of (Q := fun raws => Adds Ledger.decoded (keepingCost raws))
    getTaggedFields_safe.upTo (fun _ _ h => h) fun s raws t hs hrun h => ?_
  have hpays := getTaggedFields_pays hrun
  refine ⟨hf raws _ fun raw hmem =>
    Nat.lt_of_lt_of_le (data_lt_of_getTaggedFields hrun hmem) hs, fun u hu => ?_⟩
  simp only [Spends, Adds] at h hu ⊢
  rw [hu.1]
  omega

end Tagged

section Structs

variable {fs : List Field} {code : StructCode} {d : StructDef}

/-- The fields on the wire are read without a panic. -/
theorem decodeWire_safe {decs : List (Emitted DecodeCode)} {dflts : List Value}
    (hdecs : List.Forall₂ (fun f c => generateDecode msg f = .ok c) fs decs)
    (hlen : dflts.length = fs.length)
    (hvalue : ∀ f ∈ fs, ∀ name, f.ftype = .struct name → f.nullable = none → SafeTo n (call name))
    (hcalls : ∀ f ∈ fs, SafeBelow n call f.ftype) :
    SafeTo n (decodeWire holds version sizeOf call decs dflts) := by
  induction hdecs generalizing dflts with
  | nil => exact (Frugal.pure _).upTo
  | @cons f dec fs decs hdec _ ih =>
      obtain _ | ⟨dflt, dflts⟩ := dflts
      · cases hlen
      · obtain ⟨body, hbody, hdec⟩ := except_bind_eq_ok.mp hdec
        have hfirst : SafeTo n (assigned holds version sizeOf call dec dflt) := by
          unfold assigned
          split
          · rename_i value hruns
            obtain rfl : value = body := by
              cases hdec
              unfold emitGuarded at hruns
              split at hruns
              · cases hruns
              · split at hruns
                · cases hruns
                  rfl
                · simp only [Emitted.runs] at hruns
                  split at hruns <;> cases hruns
                  rfl
            exact decodeValue_safe hbody (hvalue f List.mem_cons_self) (hcalls f List.mem_cons_self)
          · exact (Frugal.pure _).upTo
        exact FrugalTo.bind hfirst fun _ => FrugalTo.bind
          (ih (Nat.succ.inj hlen) (fun g hg => hvalue g (List.mem_cons_of_mem _ hg))
            fun g hg => hcalls g (List.mem_cons_of_mem _ hg)) fun _ => (Frugal.pure _).upTo

/-- The branch that is taken is the code of a field. -/
theorem branchFor_safe {decs : List TaggedDecode} {m tag place place' : Nat} {value : Decode Value}
    (hdecs : List.Forall₂ (fun f c => generateDecodeTagged msg f = .ok c) fs decs)
    (hcalls : ∀ f ∈ fs, SafeBelow n call f.ftype) (hm : m < n)
    (h : branchFor holds version sizeOf call tag decs place = some (place', value)) :
    SafeTo m value := by
  induction hdecs generalizing place with
  | nil => cases h
  | @cons f dec fs decs hdec _ ih =>
      rw [branchFor] at h
      split at h
      · cases h
        obtain ⟨body, hbody, hdec⟩ := except_bind_eq_ok.mp hdec
        cases hdec
        have hbelow := hcalls f List.mem_cons_self
        refine decodeValue_safe hbody (fun name htype _ => ?_)
          fun name htype k hk => hbelow name htype k (Nat.lt_trans hk hm)
        exact hbelow name (by rw [htype]; rfl) m hm
      · exact ih (fun g hg => hcalls g (List.mem_cons_of_mem _ hg)) h

theorem mem_wireFields {f : Field} (h : f ∈ d.wireFields) : f ∈ d.fields :=
  (List.mem_filter.mp h).1

theorem mem_taggedFields {f : Field} (h : f ∈ d.taggedFields) : f ∈ d.fields :=
  (List.mem_filter.mp ((List.perm_insertionSort _ _).subset h)).1

theorem read_safe {flexible : Bool} {dflts : List Value} (hcode : Generated parseF64 msg d code)
    (hlen : dflts.length = d.wireFields.length)
    (hvalue : ∀ f ∈ d.wireFields, ∀ name, f.ftype = .struct name → f.nullable = none →
      SafeTo n (call name))
    (hcalls : ∀ f ∈ d.fields, SafeBelow n call f.ftype) :
    SafeTo n (code.read holds version sizeOf call flexible dflts) := by
  refine FrugalTo.bind (decodeWire_safe hcode.decode hlen hvalue
    fun f hf => hcalls f (mem_wireFields hf)) fun wire => ?_
  cases flexible with
  | false => exact (Frugal.pure _).upTo
  | true =>
      refine FrugalTo.bind (getTaggedFields_then fun raws m hshort => ?_) fun _ =>
        (Frugal.pure _).upTo
      split
      · exact .pure _ (Adds.refl _)
      · refine takeAllTagged_adds (fun raw hmem place value hbranch => ?_) _ _
        exact branchFor_safe hcode.decodeTagged (fun f hf => hcalls f (mem_taggedFields hf))
          (hshort raw hmem) hbranch

end Structs

section Messages

def Message.Resolves (msg : Message) : Prop :=
  ∀ d ∈ msg.structs, ∀ f ∈ d.fields, ∀ name, structNameOf f.ftype = some name →
    (msg.find name).isSome = true

instance (msg : Message) : Decidable msg.Resolves :=
  inferInstanceAs (Decidable (∀ d ∈ msg.structs, ∀ f ∈ d.fields, ∀ name ∈ structNameOf f.ftype,
    (msg.find name).isSome = true))

theorem mapM_isSome {α β : Type} {f : α → Option β} {as : List α} {bs : List β}
    (h : as.mapM f = some bs) {a : α} (ha : a ∈ as) : (f a).isSome = true := by
  induction as generalizing bs with
  | nil => exact absurd ha List.not_mem_nil
  | cons first as ih =>
      rw [List.mapM_cons] at h
      obtain ⟨b, hb, h⟩ := Option.bind_eq_some_iff.mp h
      obtain ⟨bs, hbs, h⟩ := Option.bind_eq_some_iff.mp h
      obtain rfl | ha := List.mem_cons.mp ha
      · rw [hb]
        rfl
      · exact ih hbs ha

/-- The default of a struct held by value takes the default of that struct. -/
theorem fieldDefault_struct {defaults : String → Option Value} {f : Field} {name : String}
    (htype : f.ftype = .struct name) (hnullable : f.nullable = none)
    (h : (fieldDefault parseF64 defaults f).isSome = true) : (defaults name).isSome = true := by
  obtain ⟨v, hv⟩ := Option.isSome_iff_exists.mp h
  obtain ⟨value, hvalue, hv⟩ := Option.bind_eq_some_iff.mp hv
  have hexpr : value = .structDefault := by
    cases hdefault : defaultExpr parseF64 f with
    | error e =>
        rw [hdefault] at hvalue
        cases hvalue
    | ok expr =>
        rw [hdefault] at hvalue
        cases hvalue
        simp only [defaultExpr, htype, innerDefault, hnullable] at hdefault
        split at hdefault
        · cases hdefault
        · cases hdefault
          rfl
  rw [hexpr, htype] at hv
  have hcall : defaults name = some v := hv
  rw [hcall]
  rfl

theorem default_of_find (hdefaults : msg.HasDefaults parseF64) {name : String}
    (h : (msg.find name).isSome = true) : (msg.default parseF64 name).isSome = true := by
  obtain ⟨d, hd⟩ := Option.isSome_iff_exists.mp h
  have hname : d.name = name := by simpa using List.find?_some hd
  rw [← hname]
  exact hdefaults d (List.mem_of_find?_eq_some hd)

/-- By induction on the calls that may be open: a call for a struct held by value
takes one off what its default needs, any other comes with fewer bytes. -/
theorem decode_safeTo (h : generateMessage parseF64 msg = .ok program)
    (hdefaults : msg.HasDefaults parseF64) (hresolves : msg.Resolves) (depth : Nat) {k n : Nat}
    {name : String} (hdefault : (msg.defaultAt parseF64 k name).isSome = true)
    (hk : k ≤ msg.structs.length) (hdepth : n * (msg.structs.length + 1) + k ≤ depth) :
    SafeTo n (program.decode version sizeOf depth name) := by
  obtain ⟨_, hstructs⟩ := generateMessage_ok h
  induction depth generalizing k n name with
  | zero =>
      obtain rfl : k = 0 := by omega
      cases hdefault
  | succ depth ih =>
      cases k with
      | zero => cases hdefault
      | succ k =>
          obtain ⟨v, hv⟩ := Option.isSome_iff_exists.mp hdefault
          obtain ⟨d, hd, hv⟩ := Option.bind_eq_some_iff.mp hv
          obtain ⟨wire, hwire, _⟩ := Option.bind_eq_some_iff.mp hv
          have hmem : d ∈ msg.structs := List.mem_of_find?_eq_some hd
          obtain ⟨dflt, hdflt⟩ := Option.isSome_iff_exists.mp
            (default_of_find hdefaults (by rw [hd]; rfl : (msg.find name).isSome = true))
          obtain ⟨d', dflts, tagged, unknown, hd', rfl, hlen⟩ := default_shape hdflt
          rw [hd] at hd'
          cases hd'
          have hfind : Option.Rel (Generated parseF64 msg) (msg.find name) (program.find name) :=
            find_eq hstructs name
          rw [hd] at hfind
          rw [Program.decode, default_eq hstructs, hdflt]
          cases hcode : program.find name with
          | none =>
              rw [hcode] at hfind
              cases hfind
          | some code =>
              rw [hcode] at hfind
              obtain ⟨hgenerated⟩ := hfind
              refine read_safe hgenerated hlen (fun f hf inner htype hnullable => ?_)
                fun f hf inner hinner m hm => ?_
              · exact ih (fieldDefault_struct htype hnullable (mapM_isSome hwire hf)) (by omega)
                  (by omega)
              · refine ih (default_of_find hdefaults (hresolves d hmem f hf inner hinner))
                  (Nat.le_refl _) ?_
                have hmul : (m + 1) * (msg.structs.length + 1) ≤ n * (msg.structs.length + 1) :=
                  Nat.mul_le_mul_right _ hm
                rw [Nat.succ_mul] at hmul
                omega

/-- On any bytes, at any version: no panic, no more elements than bytes, and no
more stack than the bytes allow, so that with that much the depth is immaterial. -/
theorem generated_decode_safe (h : generateMessage parseF64 msg = .ok program)
    (hdefaults : msg.HasDefaults parseF64) (hresolves : msg.Resolves) {name : String}
    (hname : (msg.find name).isSome = true) (version : Int16) (sizeOf : SizeOf)
    (s : Reader Ledger) {depth : Nat}
    (hdepth : (s.bytes.length + 1) * (msg.structs.length + 1) ≤ depth) :
    (∀ v t, program.decode version sizeOf depth name s = .ok v t →
      t.bytes.length + t.state.decoded ≤ s.bytes.length + s.state.decoded) ∧
    (∀ e t, program.decode version sizeOf depth name s = .error e t → e ≠ .panic ∧
      t.bytes.length + t.state.decoded ≤ s.bytes.length + s.state.decoded) ∧
    ∀ deeper, depth ≤ deeper →
      program.decode version sizeOf deeper name s = program.decode version sizeOf depth name s := by
  have hsafe : SafeTo s.bytes.length (program.decode version sizeOf depth name) := by
    refine decode_safeTo h hdefaults hresolves depth (default_of_find hdefaults hname)
      (Nat.le_refl _) ?_
    rw [Nat.succ_mul] at hdepth
    omega
  have hrun := hsafe s (Nat.le_refl _)
  have herror : ∀ e t, program.decode version sizeOf depth name s = .error e t → e ≠ .panic ∧
      t.bytes.length + t.state.decoded ≤ s.bytes.length + s.state.decoded := by
    intro e t herr
    rw [herr] at hrun
    exact ⟨hrun.1, Spends.le hrun.2⟩
  refine ⟨fun v t hok => ?_, herror, fun deeper hle => ?_⟩
  · rw [hok] at hrun
    exact Spends.le hrun
  · exact (Program.decode_givesUp hle name).eq_of_no_panic fun t hpanic =>
      (herror .panic t hpanic).1 rfl

theorem apiVersions_resolves : apiVersionsResponse.Resolves := by
  decide +kernel

/-- One api, as a broker that knows no tags answers it at version 1. -/
abbrev plainApiVersions : Reader Ledger :=
  ⟨[0, 0, 0, 0, 0, 1, 0, 18, 0, 0, 0, 3, 0, 0, 0, 0], { budget := .new 40, decoded := 0 }⟩

theorem apiVersions_decode_safe :
    (∃ v t, apiVersionsProgram.decode 1 (fun _ => 6) 85 "ApiVersionsResponse" plainApiVersions =
      .ok v t ∧ t.bytes = [] ∧ t.state.decoded = 1) ∧
    (∀ v t, apiVersionsProgram.decode 1 (fun _ => 6) 85 "ApiVersionsResponse" plainApiVersions =
      .ok v t → t.bytes.length + t.state.decoded ≤ 16) ∧
    (∀ e t, apiVersionsProgram.decode 1 (fun _ => 6) 85 "ApiVersionsResponse" plainApiVersions =
      .error e t → e ≠ .panic ∧ t.bytes.length + t.state.decoded ≤ 16) ∧
    ∀ deeper, 85 ≤ deeper →
      apiVersionsProgram.decode 1 (fun _ => 6) deeper "ApiVersionsResponse" plainApiVersions =
        apiVersionsProgram.decode 1 (fun _ => 6) 85 "ApiVersionsResponse" plainApiVersions :=
  ⟨⟨_, _, rfl, rfl, rfl⟩,
    generated_decode_safe apiVersions_generated apiVersions_hasDefaults apiVersions_resolves rfl 1 _
      plainApiVersions (by decide)⟩

end Messages

end Odradek.Codegen
