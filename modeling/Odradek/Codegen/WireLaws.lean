import Odradek.Codegen.WireFormat
import Odradek.Protocol.WireSettling

/-!
The codecs of single fields are lawful: leaves in either layout, nulls where
they are allowed, structs behind a marker, and arrays of elements that take up
bytes. Reading one back charges for the vectors its value holds, and for nothing
else.
-/

namespace Odradek.Codegen

open Library Library.Decoder Protocol

/-- The only reason to refuse a value that a message may carry. -/
def TooLong (e : EncodeHalt) : Prop := ∃ len max, e = .error (.tooLong len max)

abbrev LawfulWire {α : Type} (c : WireCodec α) : Prop :=
  c.Lawful Ledger.charge i64Max TooLong

/-- Reading back a value charges `f` of it to the ledger. -/
abbrev ChargesWire {α : Type} (c : WireCodec α) (f : α → List Charge) : Prop :=
  c.Charges Ledger.charge i64Max f

/-- Every value of the domain takes up bytes. -/
def Wide (c : WireCodec Value) : Prop := ∀ v, c.Domain v → c.put v ≠ .ok []

theorem attempt_eq_ok {α : Type} {x : Except EncodeError α} {a : α} :
    attempt x = .ok a ↔ x = .ok a := by
  cases x <;> simp [attempt]

theorem attempt_eq_error {α : Type} {x : Except EncodeError α} {e : EncodeHalt}
    (h : attempt x = .error e) : ∃ e', x = .error e' ∧ e = .error e' := by
  cases x with
  | ok a => cases h
  | error e' =>
      cases h
      exact ⟨e', rfl, rfl⟩

section Leaves

variable {α : Type}

/-- An encoder of one kind of values and its decoder, under a constructor. -/
structure Wrapped (encode : α → Except EncodeError Bytes) (d : Decode α) (fits : α → Prop)
    (wrap : α → Value) (c : WireCodec Value) : Prop where
  put : ∀ a, c.put (wrap a) = attempt (encode a)
  get : c.get = do let a ← d; pure (wrap a)
  domain : ∀ v, c.Domain v ↔ ∃ a, v = wrap a ∧ fits a
  reads : ∀ a bytes, fits a → encode a = .ok bytes → bytes.length ≤ i64Max → Reads d bytes a
  rewrites : Rewrites d encode
  accepts : ∀ s a t, d s = .ok a t → fits a
  refuses : ∀ a e, encode a = .error e → ∃ len max, e = .tooLong len max

variable {encode : α → Except EncodeError Bytes} {d : Decode α} {fits : α → Prop}
  {wrap : α → Value} {c : WireCodec Value}

theorem Wrapped.charges (h : Wrapped encode d fits wrap c) : ChargesWire c fun _ => [] := by
  intro v bytes hv hput hcap
  obtain ⟨a, rfl, ha⟩ := (h.domain v).mp hv
  rw [h.put, attempt_eq_ok] at hput
  rw [h.get]
  exact (h.reads a bytes ha hput hcap).bind_pure wrap

/-- A wrapped encoder and decoder make a lawful codec. -/
theorem Wrapped.lawful (h : Wrapped encode d fits wrap c) : LawfulWire c :=
  { reads_back := h.charges.reads_back
    settles := by
      intro s v t hget
      rw [h.get] at hget
      obtain ⟨a, u, ha, hpure⟩ := bind_eq_ok.mp hget
      cases hpure
      obtain ⟨used, bytes, hused, hput, hne, hle⟩ := h.rewrites s a t ha
      refine ⟨(h.domain _).mpr ⟨a, rfl, h.accepts s a t ha⟩, used, bytes, hused, ?_, hle,
        fun hnil => absurd hnil hne⟩
      rw [h.put, attempt_eq_ok]
      exact hput
    refuses := by
      intro v e hv hput
      obtain ⟨a, rfl, _⟩ := (h.domain v).mp hv
      rw [h.put] at hput
      obtain ⟨e', hencode, rfl⟩ := attempt_eq_error hput
      obtain ⟨len, max, rfl⟩ := h.refuses a e' hencode
      exact ⟨len, max, rfl⟩ }

/-- Nothing is read from no bytes. -/
theorem Wrapped.wide (h : Wrapped encode d fits wrap c) : Wide c := by
  intro v hv hput
  obtain ⟨a, rfl, ha⟩ := (h.domain v).mp hv
  rw [h.put, attempt_eq_ok] at hput
  have hread := (h.reads a [] ha hput (Nat.zero_le _) [] ⟨⟨0, 0⟩, 0⟩).1 _ rfl
  obtain ⟨_, bytes, _, hput', hne, _⟩ := h.rewrites _ _ _ hread
  rw [hput] at hput'
  cases hput'
  exact hne rfl

theorem getNullable_unwrapped {d : Decode (Option α)} (wrap : α → Value) :
    (do let raw ← (do let a ← d; pure (Value.ofOption wrap a)); unwrapped raw) =
      (do let a ← d >>= notNull; pure (wrap a) : Decode Value) := by
  simp only [bind_assoc, pure_bind]
  congr 1
  funext value
  cases value <;> rfl

/-- A length and as many bytes: only the length may be refused. -/
theorem Wrapped.of_sized (hput : ∀ a, c.put (wrap a) = attempt (encode a))
    (hget : c.get = do let a ← d; pure (wrap a)) (hdomain : ∀ v, c.Domain v ↔ ∃ a, v = wrap a)
    (hreads : ∀ a bytes, encode a = .ok bytes → bytes.length ≤ i64Max → Reads d bytes a)
    (hrewrites : Rewrites d encode)
    (hrefuses : ∀ a e, encode a = .error e → ∃ len max, e = .tooLong len max) :
    Wrapped encode d (fun _ => True) wrap c :=
  { put := hput
    get := hget
    domain := by
      intro v
      simp only [hdomain, and_true]
    reads := fun a bytes _ h hcap => hreads a bytes h hcap
    rewrites := hrewrites
    accepts := fun _ _ _ _ => trivial
    refuses := hrefuses }

/-- A fixed layout, which no value is too long for. -/
theorem Wrapped.of_fixed {write : α → Bytes} (hput : ∀ a, c.put (wrap a) = .ok (write a))
    (hget : c.get = do let a ← d; pure (wrap a)) (hdomain : ∀ v, c.Domain v ↔ ∃ a, v = wrap a)
    (hreads : ∀ a, Reads d (write a) a) (hrewrites : Rewrites d fun a => .ok (write a)) :
    Wrapped (fun a => .ok (write a)) d (fun _ => True) wrap c := by
  refine .of_sized hput hget hdomain (fun a bytes hwrite _ => ?_) hrewrites fun _ _ h => nomatch h
  cases hwrite
  exact hreads a

/-- A codec whose values also take up bytes. -/
structure Solid (c : WireCodec Value) : Prop where
  lawful : LawfulWire c
  wide : Wide c

/-- One whose values also hold no vector. -/
structure Flat (c : WireCodec Value) : Prop extends Solid c where
  free : ChargesWire c fun _ => []

theorem Wrapped.flat (h : Wrapped encode d fits wrap c) : Flat c :=
  { lawful := h.lawful
    wide := h.wide
    free := h.charges }

theorem nowhere_flat : Flat nowhere :=
  { lawful := .failing
    wide := fun _ h => h.elim
    free := .failing }

end Leaves

section Sized

variable {data : Bytes} {e : EncodeError} {n : Nat}

theorem putString_refuses {s : String} (h : putString s = .error e) :
    ∃ len max, e = .tooLong len max := by
  unfold putString at h
  split at h <;> cases h
  exact ⟨_, _, rfl⟩

theorem putNullableString_refuses {s : Option String} (h : putNullableString s = .error e) :
    ∃ len max, e = .tooLong len max := by
  cases s with
  | none => cases h
  | some s => exact putString_refuses h

theorem putBytes_refuses (h : putBytes data = .error e) : ∃ len max, e = .tooLong len max := by
  unfold putBytes at h
  split at h <;> cases h
  exact ⟨_, _, rfl⟩

theorem putNullableBytes_refuses {data : Option Bytes} (h : putNullableBytes data = .error e) :
    ∃ len max, e = .tooLong len max := by
  cases data with
  | none => cases h
  | some data => exact putBytes_refuses h

theorem LenCall.put_refuses {len : LenCall} {count : Option Nat} (h : len.put count = .error e) :
    ∃ len max, e = .tooLong len max := by
  cases len with
  | compact => cases h
  | classic =>
      cases count with
      | none => cases h
      | some count =>
          simp only [LenCall.put, putArrayLen] at h
          split at h <;> cases h
          exact ⟨_, _, rfl⟩

/-- What a compact length counts is shorter than the whole. -/
theorem lt_of_compact (h : (putUnsignedVarint n ++ data).length ≤ i64Max) :
    data.length < i64Max := by
  have hpos := length_putUnsignedVarint_pos n
  rw [List.length_append] at h
  omega

theorem compactString_lt {s : String} (h : (putCompactString s).length ≤ i64Max) :
    (utf8 s).length < i64Max :=
  lt_of_compact h

theorem compactBytes_lt (h : (putCompactBytes data).length ≤ i64Max) : data.length < i64Max :=
  lt_of_compact h

end Sized

section Types

variable {α : Type} {v : Value}

theorem holds_string : FieldType.string.Holds v ↔ ∃ s, v = .string s := by
  cases v <;> simp [FieldType.Holds]

theorem holds_bytes : FieldType.bytes.Holds v ↔ ∃ data, v = .bytes data := by
  cases v <;> simp [FieldType.Holds]

/-- Records are bytes under another name. -/
theorem holds_records : FieldType.records.Holds v ↔ ∃ data, v = .bytes data := by
  cases v <;> simp [FieldType.Holds]

theorem FieldType.mayHold_iff {ftype : FieldType} {wrap : α → Value}
    (h : ∀ v, ftype.Holds v ↔ ∃ a, v = wrap a) :
    ftype.MayHold v ↔ ∃ a, v = Value.ofOption wrap a := by
  constructor
  · intro hv
    cases v with
    | none => exact ⟨none, rfl⟩
    | some inner =>
        obtain ⟨a, rfl⟩ := (h inner).mp hv
        exact ⟨some a, rfl⟩
    | _ => exact hv.elim
  · rintro ⟨_ | a, rfl⟩
    · trivial
    · exact (h (wrap a)).mpr ⟨a, rfl⟩

theorem string_flat (flexible : Bool) : Flat (leafCodec flexible .string) := by
  cases flexible with
  | false =>
      have h : Wrapped putString getString (fun _ => True) .string (leafCodec false .string) :=
        .of_sized (fun _ => rfl) rfl (fun _ => holds_string)
          (fun _ _ hput _ => getString_reads hput) getString_rewrites fun _ _ => putString_refuses
      exact h.flat
  | true =>
      have h : Wrapped (fun s => .ok (putCompactString s)) getCompactString (fun _ => True) .string
          (leafCodec true .string) := by
        refine .of_sized (fun _ => rfl) rfl (fun _ => holds_string)
          (fun s bytes hput hcap => ?_) getCompactString_rewrites fun _ _ h => nomatch h
        cases hput
        exact getCompactString_reads (compactString_lt hcap)
      exact h.flat

theorem nullableString_flat :
    Flat (leaf .nullableString .nullableString FieldType.string.MayHold) := by
  have h : Wrapped putNullableString getNullableString (fun _ => True) (.ofOption .string)
      (leaf .nullableString .nullableString FieldType.string.MayHold) := by
    refine .of_sized (fun a => ?_) rfl (fun _ => FieldType.mayHold_iff fun _ => holds_string)
      (fun _ _ hput _ => getNullableString_reads hput) getNullableString_rewrites
      fun _ _ => putNullableString_refuses
    cases a <;> rfl
  exact h.flat

theorem compactNullableString_flat :
    Flat (leaf .compactNullableString .compactNullableString FieldType.string.MayHold) := by
  have h : Wrapped (fun s => .ok (putCompactNullableString s)) getCompactNullableString
      (fun _ => True) (.ofOption .string)
      (leaf .compactNullableString .compactNullableString FieldType.string.MayHold) := by
    refine .of_sized (fun a => ?_) rfl (fun _ => FieldType.mayHold_iff fun _ => holds_string)
      (fun a bytes hput hcap => ?_) getCompactNullableString_rewrites fun _ _ h => nomatch h
    · cases a <;> rfl
    · cases hput
      refine getCompactNullableString_reads ?_
      rintro _ rfl
      exact compactString_lt hcap
  exact h.flat

section Bytes

variable {ftype : FieldType} (hbytes : ∀ v, ftype.Holds v ↔ ∃ data, v = .bytes data)

include hbytes

theorem bytes_flat : Flat (required .bytes .nullableBytes ftype.Holds) := by
  have h : Wrapped putBytes (getNullableBytes >>= notNull) (fun _ => True) .bytes
      (required .bytes .nullableBytes ftype.Holds) :=
    .of_sized (fun _ => rfl) (getNullable_unwrapped .bytes) hbytes
      (fun _ _ hput _ => notNull_reads (getNullableBytes_reads hput))
      getNullableBytes_rewrites.notNull fun _ _ => putBytes_refuses
  exact h.flat

theorem compactBytes_flat : Flat (required .compactBytes .compactNullableBytes ftype.Holds) := by
  have h : Wrapped (fun data => .ok (putCompactBytes data)) (getCompactNullableBytes >>= notNull)
      (fun _ => True) .bytes (required .compactBytes .compactNullableBytes ftype.Holds) := by
    refine .of_sized (fun _ => rfl) (getNullable_unwrapped .bytes) hbytes
      (fun data bytes hput hcap => ?_) getCompactNullableBytes_rewrites.notNull
      fun _ _ h => nomatch h
    cases hput
    have hfits : ∀ v, some data = some v → v.length < i64Max := by
      rintro _ ⟨⟩
      exact compactBytes_lt hcap
    exact notNull_reads (getCompactNullableBytes_reads hfits)
  exact h.flat

theorem nullableBytes_flat : Flat (leaf .nullableBytes .nullableBytes ftype.MayHold) := by
  have h : Wrapped putNullableBytes getNullableBytes (fun _ => True) (.ofOption .bytes)
      (leaf .nullableBytes .nullableBytes ftype.MayHold) := by
    refine .of_sized (fun a => ?_) rfl (fun _ => FieldType.mayHold_iff hbytes)
      (fun _ _ hput _ => getNullableBytes_reads hput) getNullableBytes_rewrites
      fun _ _ => putNullableBytes_refuses
    cases a <;> rfl
  exact h.flat

theorem compactNullableBytes_flat :
    Flat (leaf .compactNullableBytes .compactNullableBytes ftype.MayHold) := by
  have h : Wrapped (fun data => .ok (putCompactNullableBytes data)) getCompactNullableBytes
      (fun _ => True) (.ofOption .bytes)
      (leaf .compactNullableBytes .compactNullableBytes ftype.MayHold) := by
    refine .of_sized (fun a => ?_) rfl (fun _ => FieldType.mayHold_iff hbytes)
      (fun a bytes hput hcap => ?_) getCompactNullableBytes_rewrites fun _ _ h => nomatch h
    · cases a <;> rfl
    · cases hput
      refine getCompactNullableBytes_reads ?_
      rintro _ rfl
      exact compactBytes_lt hcap
  exact h.flat

end Bytes

/-- An identifier is 16 bytes and nothing else. -/
theorem uuid_flat : Flat (leaf .uuid .uuid FieldType.uuid.Holds) := by
  have h : Wrapped (fun data => .ok data) getUuid (fun data => data.length = uuidLen) .uuid
      (leaf .uuid .uuid FieldType.uuid.Holds) :=
    { put := fun _ => rfl
      get := rfl
      domain := by
        intro v
        cases v <;> simp [leaf, FieldType.Holds]
      reads := by
        intro data bytes hlen hput _
        cases hput
        rw [getUuid, ← hlen]
        exact takeBytes_reads data
      rewrites := by
        intro s data t hread
        obtain ⟨hbytes, hlen⟩ := getUuid_ok hread
        refine ⟨data, data, hbytes, rfl, ?_, Nat.le_refl _⟩
        exact List.ne_nil_of_length_pos (by rw [hlen]; decide)
      accepts := fun s data t hread => (getUuid_ok hread).2
      refuses := fun _ _ h => nomatch h }
  exact h.flat

/-- A leaf of a fixed layout, one for each constructor. -/
theorem leafCodec_flat (flexible : Bool) (ftype : FieldType) :
    Flat (leafCodec flexible ftype) := by
  cases ftype with
  | bool =>
      have h : Wrapped (fun b => .ok (putBool b)) getBool (fun _ => True) .bool
          (leaf .bool .bool FieldType.bool.Holds) :=
        .of_fixed (fun _ => rfl) rfl (fun v => by cases v <;> simp [leaf, FieldType.Holds])
          getBool_reads getBool_rewrites
      exact h.flat
  | int8 =>
      have h : Wrapped (fun n => .ok (putI8 n)) getI8 (fun _ => True) .int8
          (leaf .i8 .i8 FieldType.int8.Holds) :=
        .of_fixed (fun _ => rfl) rfl (fun v => by cases v <;> simp [leaf, FieldType.Holds])
          getI8_reads getI8_rewrites
      exact h.flat
  | int16 =>
      have h : Wrapped (fun n => .ok (putI16 n)) getI16 (fun _ => True) .int16
          (leaf .i16 .i16 FieldType.int16.Holds) :=
        .of_fixed (fun _ => rfl) rfl (fun v => by cases v <;> simp [leaf, FieldType.Holds])
          getI16_reads getI16_rewrites
      exact h.flat
  | uint16 =>
      have h : Wrapped (fun n => .ok (putU16 n)) getU16 (fun _ => True) .uint16
          (leaf .u16 .u16 FieldType.uint16.Holds) :=
        .of_fixed (fun _ => rfl) rfl (fun v => by cases v <;> simp [leaf, FieldType.Holds])
          getU16_reads getU16_rewrites
      exact h.flat
  | int32 =>
      have h : Wrapped (fun n => .ok (putI32 n)) getI32 (fun _ => True) .int32
          (leaf .i32 .i32 FieldType.int32.Holds) :=
        .of_fixed (fun _ => rfl) rfl (fun v => by cases v <;> simp [leaf, FieldType.Holds])
          getI32_reads getI32_rewrites
      exact h.flat
  | uint32 =>
      have h : Wrapped (fun n => .ok (putU32 n)) getU32 (fun _ => True) .uint32
          (leaf .u32 .u32 FieldType.uint32.Holds) :=
        .of_fixed (fun _ => rfl) rfl (fun v => by cases v <;> simp [leaf, FieldType.Holds])
          getU32_reads getU32_rewrites
      exact h.flat
  | int64 =>
      have h : Wrapped (fun n => .ok (putI64 n)) getI64 (fun _ => True) .int64
          (leaf .i64 .i64 FieldType.int64.Holds) :=
        .of_fixed (fun _ => rfl) rfl (fun v => by cases v <;> simp [leaf, FieldType.Holds])
          getI64_reads getI64_rewrites
      exact h.flat
  | float64 =>
      have h : Wrapped (fun bits => .ok (putF64 bits)) getF64 (fun _ => True) .float64
          (leaf .f64 .f64 FieldType.float64.Holds) :=
        .of_fixed (fun _ => rfl) rfl (fun v => by cases v <;> simp [leaf, FieldType.Holds])
          getF64_reads getF64_rewrites
      exact h.flat
  | uuid => exact uuid_flat
  | string => exact string_flat flexible
  | bytes =>
      cases flexible with
      | false => exact bytes_flat fun _ => holds_bytes
      | true => exact compactBytes_flat fun _ => holds_bytes
  | records =>
      cases flexible with
      | false => exact bytes_flat fun _ => holds_records
      | true => exact compactBytes_flat fun _ => holds_records
  | struct name => exact nowhere_flat
  | array elem => exact nowhere_flat

end Types

section Nulls

variable {c : WireCodec Value} {allowed : Bool} {field : String} {v : Value}
  {f : Value → List Charge}

theorem Value.eq_none (h : v.isNone = true) : v = .none := by
  cases v <;> first | rfl | cases h

theorem nullWhere_ok {s t : Reader Ledger} (h : nullWhere allowed s = .ok v t) :
    v = .none ∧ allowed = true ∧ t = s := by
  unfold nullWhere at h
  split at h <;> cases h
  exact ⟨rfl, ‹_›, rfl⟩

theorem nullWhere_reads (h : allowed = true) : Reads (nullWhere allowed) [] .none := by
  rw [nullWhere, if_pos h]
  exact .pure

theorem nullable_put (h : v.isNone → allowed) : (nullable allowed field c).put v = c.put v :=
  if_neg fun hnull => hnull.2 (h hnull.1)

theorem nullable_charges (h : ChargesWire c f) : ChargesWire (nullable allowed field c) f := by
  rintro v bytes ⟨hv, hnull⟩ hput hcap
  rw [nullable_put hnull] at hput
  refine (h v bytes hv hput hcap).bind_last ?_
  by_cases hnone : v.isNone = true
  · rw [if_pos hnone, Value.eq_none hnone]
    exact nullWhere_reads (hnull hnone)
  · rw [if_neg hnone]
    exact .pure

theorem nullable_lawful (h : LawfulWire c) : LawfulWire (nullable allowed field c) :=
  { reads_back := by
      obtain ⟨f, hf⟩ := h.charges
      exact (nullable_charges hf).reads_back
    settles := by
      intro s v t hget
      obtain ⟨raw, u, hraw, hget⟩ := bind_eq_ok.mp hget
      obtain ⟨hdom, hrewrites⟩ := h.settles s raw u hraw
      have hkept : v = raw ∧ u = t ∧ (raw.isNone → allowed) := by
        by_cases hnone : raw.isNone = true
        · rw [if_pos hnone] at hget
          obtain ⟨rfl, hallowed, rfl⟩ := nullWhere_ok hget
          exact ⟨(Value.eq_none hnone).symm, rfl, fun _ => hallowed⟩
        · rw [if_neg hnone] at hget
          cases hget
          exact ⟨rfl, rfl, fun h => absurd h hnone⟩
      obtain ⟨rfl, rfl, hnull⟩ := hkept
      obtain ⟨used, bytes, hused, hput, hle, hnil⟩ := hrewrites
      exact ⟨⟨hdom, hnull⟩, used, bytes, hused, (nullable_put hnull).trans hput, hle, hnil⟩
    refuses := by
      rintro v e ⟨hv, hnull⟩ hput
      rw [nullable_put hnull] at hput
      exact h.refuses v e hv hput }

/-- Of what is there, if anything is. -/
def someCharges (f : Value → List Charge) : Value → List Charge
  | .some v => f v
  | _ => []

/-- The marker is read for free. -/
theorem marked_charges (h : ChargesWire c f) :
    ChargesWire (marked allowed field c) (someCharges f) := by
  intro v bytes hv hput hcap
  cases v with
  | some v =>
      obtain ⟨body, hbody, hput⟩ := except_bind_eq_ok.mp hput
      cases hput
      rw [List.length_append] at hcap
      have hread := h v body hv hbody (by omega)
      refine (getI8_reads 1).bind_free ?_
      rw [if_neg (by decide)]
      exact hread.bind_pure Value.some
  | none =>
      have hallowed : allowed = true := hv
      simp only [marked, if_pos hallowed] at hput
      cases hput
      refine (getI8_reads (-1)).bind_last ?_
      rw [if_pos (by decide)]
      exact nullWhere_reads hallowed
  | _ => exact hv.elim

theorem marked_lawful (h : LawfulWire c) : LawfulWire (marked allowed field c) :=
  { reads_back := by
      obtain ⟨f, hf⟩ := h.charges
      exact (marked_charges hf).reads_back
    settles := by
      intro s v t hget
      obtain ⟨marker, u, hmarker, hget⟩ := bind_eq_ok.mp hget
      obtain ⟨used, front, hused, hfront, hne, hle⟩ := getI8_rewrites s marker u hmarker
      cases hfront
      -- Any byte that is not negative announces a struct; the writer takes 1.
      have hone : ∀ n : Int8, (putI8 n).length ≤ used.length := by
        intro n
        rw [putI8, length_toBigEndian] at hle ⊢
        exact hle
      by_cases hneg : marker < 0
      · rw [if_pos hneg] at hget
        obtain ⟨rfl, hallowed, rfl⟩ := nullWhere_ok hget
        refine ⟨hallowed, used, putI8 (-1), hused, ?_, hone _, fun h => absurd h (putI8_ne_nil _)⟩
        simp only [marked, if_pos hallowed]
      · rw [if_neg hneg] at hget
        obtain ⟨inner, w, hinner, hget⟩ := bind_eq_ok.mp hget
        cases hget
        obtain ⟨hdom, used', bytes, hused', hput, hle', _⟩ := h.settles u inner t hinner
        refine ⟨hdom, used ++ used', putI8 1 ++ bytes, ?_, ?_, ?_, ?_⟩
        · rw [hused, hused', List.append_assoc]
        · simp only [marked, hput]
          rfl
        · have := hone 1
          simp only [List.length_append]
          omega
        · intro hnil
          exact absurd (List.append_eq_nil_iff.mp hnil).1 (putI8_ne_nil 1)
    refuses := by
      intro v e hv hput
      cases v with
      | some v =>
          simp only [marked] at hput
          cases hbody : c.put v with
          | ok body =>
              rw [hbody] at hput
              cases hput
          | error e' =>
              rw [hbody] at hput
              cases hput
              exact h.refuses v e hv hbody
      | none =>
          have hallowed : allowed = true := hv
          simp only [marked, if_pos hallowed] at hput
          cases hput
      | _ => exact hv.elim }

theorem wide_charges (h : ChargesWire c f) : ChargesWire (wide c) f := by
  rintro v bytes ⟨hv, hne⟩ hput hcap
  refine progressing_decodes (h v bytes hv hput hcap) ?_
  rintro rfl
  exact hne hput

theorem wide_solid (h : LawfulWire c) : Solid (wide c) where
  wide := fun _ hv => hv.2
  lawful :=
    { reads_back := by
        obtain ⟨f, hf⟩ := h.charges
        exact (wide_charges hf).reads_back
      settles := by
        intro s v t hget
        obtain ⟨hdom, hrewrites⟩ := h.settles s v t (progressing_ok hget)
        obtain ⟨used, bytes, hused, hput, hle, hnil⟩ := hrewrites
        refine ⟨⟨hdom, fun hput' => ?_⟩, used, bytes, hused, hput, hle, hnil⟩
        -- Written in no bytes it would have been read from none.
        have hlt := progressing_consumes c.get s v t hget
        rw [hput] at hput'
        cases hput'
        rw [hused, hnil rfl] at hlt
        exact absurd hlt (Nat.lt_irrefl _)
      refuses := fun v e hv hput => h.refuses v e hv.1 hput }

end Nulls

section Arrays

variable {len : LenCall} {size : Nat} {item : WireCodec Value} {vs : List Value}
  {bytes front : Bytes} {f : Value → List Charge}

theorem LenCall.get_reads {count : Option Nat} (h : len.put count = .ok bytes)
    (hlt : ∀ n, count = some n → n < i64Max) : Reads len.get bytes count := by
  cases len with
  | classic => exact getArrayLen_reads h
  | compact =>
      cases h
      exact getCompactArrayLen_reads hlt

theorem LenCall.get_rewrites (len : LenCall) : Rewrites len.get len.put := by
  cases len with
  | classic => exact getArrayLen_rewrites
  | compact => exact getCompactArrayLen_rewrites

theorem LenCall.put_none (len : LenCall) : ∃ bytes, len.put none = .ok bytes := by
  cases len with
  | classic => exact ⟨_, rfl⟩
  | compact => exact ⟨_, rfl⟩

theorem LenCall.put_ne_nil (h : len.put (some vs.length) = .ok front) : front ≠ [] := by
  cases len with
  | classic =>
      simp only [LenCall.put, putArrayLen] at h
      split at h <;> cases h
      exact putI32_ne_nil _
  | compact =>
      cases h
      exact putUnsignedVarint_ne_nil _

theorem encodeItems_cons {v : Value} (h : encodeItems item.put (v :: vs) = .ok bytes) :
    ∃ first rest, item.put v = .ok first ∧ encodeItems item.put vs = .ok rest ∧
      bytes = first ++ rest := by
  obtain ⟨first, hfirst, h⟩ := except_bind_eq_ok.mp h
  obtain ⟨rest, hrest, h⟩ := except_bind_eq_ok.mp h
  cases h
  exact ⟨first, rest, hfirst, hrest, rfl⟩

/-- A byte for each element, at least. -/
theorem length_le_encodeItems (hwide : Wide item) (hdom : ∀ v ∈ vs, item.Domain v)
    (h : encodeItems item.put vs = .ok bytes) : vs.length ≤ bytes.length := by
  induction vs generalizing bytes with
  | nil => exact Nat.zero_le _
  | cons v vs ih =>
      obtain ⟨first, rest, hfirst, hrest, rfl⟩ := encodeItems_cons h
      have hne : first ≠ [] := by
        rintro rfl
        exact hwide v (hdom v List.mem_cons_self) hfirst
      have hpos := List.length_pos_iff.mpr hne
      have := ih (fun w hw => hdom w (List.mem_cons_of_mem _ hw)) hrest
      simp only [List.length_cons, List.length_append]
      omega

/-- By induction on the elements, each charged after the vector has grown for those
before it. -/
theorem getItems_charges (h : ChargesWire item f) (hdom : ∀ v ∈ vs, item.Domain v)
    (hput : encodeItems item.put vs = .ok bytes) (hcap : bytes.length ≤ i64Max)
    {read : Vec Value} (hread : read.Pushed size) :
    Decodes Ledger.charge (getItems size item.get vs.length read) bytes
      (read.extend size vs) (itemsCharges size f vs read.items.length) := by
  induction vs generalizing bytes read with
  | nil =>
      cases hput
      rw [hread.extend_nil]
      exact .pure
  | cons v vs ih =>
      obtain ⟨first, rest, hfirst, hrest, rfl⟩ := encodeItems_cons hput
      rw [List.length_append] at hcap
      have hv := h v first (hdom v List.mem_cons_self) hfirst (by omega)
      have hpushed : (read.append size v).Pushed size := .append v
      have hvs := ih (fun w hw => hdom w (List.mem_cons_of_mem _ hw)) hrest (by omega) hpushed
      have hcount : (read.append size v).items.length = read.items.length + 1 := by
        simp [Vec.append]
      rw [Vec.append_extend, hcount] at hvs
      exact hv.bind ((push_decodes hread v).bind_unread hvs)

/-- The loop's items are written again in no more bytes. -/
theorem getItems_settles (h : LawfulWire item) (count : Nat) {read result : Vec Value}
    {s t : Reader Ledger} (hget : getItems size item.get count read s = .ok result t) :
    ∃ vs used bytes, result.items = read.items ++ vs ∧ vs.length = count ∧
      (∀ v ∈ vs, item.Domain v) ∧ s.bytes = used ++ t.bytes ∧
      encodeItems item.put vs = .ok bytes ∧ bytes.length ≤ used.length := by
  induction count generalizing read s with
  | zero =>
      cases hget
      exact ⟨[], [], [], (List.append_nil _).symm, rfl, fun _ h => absurd h List.not_mem_nil, rfl,
        rfl, Nat.le_refl _⟩
  | succ count ih =>
      obtain ⟨v, u, hv, hget⟩ := bind_eq_ok.mp hget
      obtain ⟨pushed, w, hpush, hget⟩ := bind_eq_ok.mp hget
      obtain ⟨hitems, hbytes⟩ := push_items hpush
      obtain ⟨hdom, used, first, hused, hfirst, hle, _⟩ := h.settles s v u hv
      obtain ⟨vs, used', rest, hresult, hlen, hdoms, hused', hrest, hle'⟩ := ih hget
      refine ⟨v :: vs, used ++ used', first ++ rest, ?_, by rw [List.length_cons, hlen],
        List.forall_mem_cons.mpr ⟨hdom, hdoms⟩, ?_, ?_, ?_⟩
      · rw [hresult, hitems, List.append_assoc, List.singleton_append]
      · rw [hused, ← hbytes, hused', List.append_assoc]
      · simp only [encodeItems, hfirst, hrest]
        rfl
      · simp only [List.length_append]
        omega

theorem encodeItems_refuses (h : LawfulWire item) (hdom : ∀ v ∈ vs, item.Domain v)
    {e : EncodeHalt} (hput : encodeItems item.put vs = .error e) : TooLong e := by
  induction vs with
  | nil => cases hput
  | cons v vs ih =>
      have hv := hdom v List.mem_cons_self
      simp only [encodeItems] at hput
      cases hfirst : item.put v with
      | error e' =>
          rw [hfirst] at hput
          cases hput
          exact h.refuses v e hv hfirst
      | ok first =>
          cases hrest : encodeItems item.put vs with
          | error e' =>
              rw [hfirst, hrest] at hput
              cases hput
              exact ih (fun w hw => hdom w (List.mem_cons_of_mem _ hw)) hrest
          | ok rest =>
              rw [hfirst, hrest] at hput
              cases hput

/-- Of the elements, and of the vector that grows to hold them. -/
def arrayCharges (size : Nat) (f : Value → List Charge) : Value → List Charge
  | .array vs => itemsCharges size f vs 0
  | _ => []

/-- What follows the length of an array, its elements under a constructor. -/
theorem array_charges (h : ChargesWire item f) (hwide : Wide item)
    (hdom : ∀ v ∈ vs, item.Domain v) (hput : encodeArray len item.put vs = .ok bytes)
    (hcap : bytes.length ≤ i64Max) {g : Option Nat → Decode Value} (wrap : Value → Value)
    (hg : g (some vs.length) = do
      let items ← decodeArray size item.get vs.length
      pure (wrap items)) :
    Decodes Ledger.charge (len.get >>= g) bytes (wrap (.array vs))
      (arrayCharges size f (.array vs)) := by
  obtain ⟨front, hfront, hput⟩ := except_bind_eq_ok.mp hput
  obtain ⟨body, hbody, hput⟩ := except_bind_eq_ok.mp hput
  cases hput
  rw [attempt_eq_ok] at hfront
  have hcount := length_le_encodeItems hwide hdom hbody
  have hpos := List.length_pos_iff.mpr (LenCall.put_ne_nil hfront)
  rw [List.length_append] at hcap
  have hlen : ∀ n, some vs.length = some n → n < i64Max := by
    rintro _ ⟨⟩
    omega
  have hitems := getItems_charges h hdom hbody (by omega) (.new : (Vec.new size).Pushed size)
  refine (LenCall.get_reads hfront hlen).bind_free ?_
  rw [hg]
  exact (hitems.bind_pure fun items => Value.array items.items).bind_pure wrap

theorem array_settles (h : LawfulWire item) {count : Nat} {s u t : Reader Ledger} {v : Value}
    (hlen : len.get s = .ok (some count) u)
    (hget : decodeArray size item.get count u = .ok v t) :
    ∃ vs used bytes, v = .array vs ∧ (∀ w ∈ vs, item.Domain w) ∧ s.bytes = used ++ t.bytes ∧
      encodeArray len item.put vs = .ok bytes ∧ bytes.length ≤ used.length ∧ bytes ≠ [] := by
  obtain ⟨result, w, hitems, hget⟩ := bind_eq_ok.mp hget
  cases hget
  obtain ⟨used, front, hused, hfront, hne, hle⟩ := LenCall.get_rewrites len s _ u hlen
  obtain ⟨vs, used', body, hresult, hcount, hdom, hused', hbody, hle'⟩ :=
    getItems_settles h count hitems
  refine ⟨vs, used ++ used', front ++ body, ?_, hdom, ?_, ?_, ?_, ?_⟩
  · rw [hresult]
    rfl
  · rw [hused, hused', List.append_assoc]
  · rw [encodeArray, hcount, attempt_eq_ok.mpr hfront, hbody]
    rfl
  · simp only [List.length_append]
    omega
  · exact fun hnil => hne (List.append_eq_nil_iff.mp hnil).1

theorem array_refuses (h : LawfulWire item) (hdom : ∀ v ∈ vs, item.Domain v) {e : EncodeHalt}
    (hput : encodeArray len item.put vs = .error e) : TooLong e := by
  simp only [encodeArray] at hput
  cases hfront : attempt (len.put (some vs.length)) with
  | error e' =>
      rw [hfront] at hput
      cases hput
      obtain ⟨e', hput, rfl⟩ := attempt_eq_error hfront
      obtain ⟨n, max, rfl⟩ := LenCall.put_refuses hput
      exact ⟨n, max, rfl⟩
  | ok front =>
      cases hbody : encodeItems item.put vs with
      | error e' =>
          rw [hfront, hbody] at hput
          cases hput
          exact encodeItems_refuses h hdom hbody
      | ok body =>
          rw [hfront, hbody] at hput
          cases hput

theorem counted_charges (h : ChargesWire item f) (hwide : Wide item) :
    ChargesWire (counted len size item) (arrayCharges size f) := by
  intro v bytes hv hput hcap
  cases v with
  | array vs => exact array_charges h hwide hv hput hcap id (bind_pure _).symm
  | _ => exact hv.elim

/-- A counted list is lawful where its items take up bytes. -/
theorem counted_lawful (h : Solid item) : LawfulWire (counted len size item) :=
  { reads_back := by
      obtain ⟨f, hf⟩ := h.lawful.charges
      exact (counted_charges hf h.wide).reads_back
    settles := by
      intro s v t hget
      obtain ⟨count, u, hlen, hget⟩ := bind_eq_ok.mp hget
      cases count with
      | none => cases hget
      | some count =>
          obtain ⟨vs, used, bytes, rfl, hdom, hused, hput, hle, hne⟩ :=
            array_settles h.lawful hlen hget
          exact ⟨hdom, used, bytes, hused, hput, hle, fun hnil => absurd hnil hne⟩
    refuses := by
      intro v e hv hput
      cases v with
      | array vs => exact array_refuses h.lawful hv hput
      | _ => exact hv.elim }

theorem nullableCounted_charges {allowed : Bool} {field : String} (h : ChargesWire item f)
    (hwide : Wide item) :
    ChargesWire (nullableCounted allowed field len size item)
      (someCharges (arrayCharges size f)) := by
  intro v bytes hv hput hcap
  cases v with
  | some v =>
      cases v with
      | array vs => exact array_charges h hwide hv hput hcap Value.some rfl
      | _ => exact hv.elim
  | none =>
      have hallowed : allowed = true := hv
      simp only [nullableCounted, if_pos hallowed] at hput
      refine (LenCall.get_reads (attempt_eq_ok.mp hput) ?_).bind_last ?_
      · rintro _ ⟨⟩
      · exact nullWhere_reads hallowed
  | _ => exact hv.elim

theorem nullableCounted_lawful {allowed : Bool} {field : String} (h : Solid item) :
    LawfulWire (nullableCounted allowed field len size item) :=
  { reads_back := by
      obtain ⟨f, hf⟩ := h.lawful.charges
      exact (nullableCounted_charges hf h.wide).reads_back
    settles := by
      intro s v t hget
      obtain ⟨count, u, hlen, hget⟩ := bind_eq_ok.mp hget
      cases count with
      | none =>
          obtain ⟨rfl, hallowed, rfl⟩ := nullWhere_ok hget
          obtain ⟨used, bytes, hused, hput, hne, hle⟩ := LenCall.get_rewrites len s _ _ hlen
          refine ⟨hallowed, used, bytes, hused, ?_, hle, fun hnil => absurd hnil hne⟩
          simp only [nullableCounted, if_pos hallowed, attempt_eq_ok]
          exact hput
      | some count =>
          obtain ⟨items, w, hitems, hget⟩ := bind_eq_ok.mp hget
          cases hget
          obtain ⟨vs, used, bytes, rfl, hdom, hused, hput, hle, hne⟩ :=
            array_settles h.lawful hlen hitems
          exact ⟨hdom, used, bytes, hused, hput, hle, fun hnil => absurd hnil hne⟩
    refuses := by
      intro v e hv hput
      cases v with
      | some v =>
          cases v with
          | array vs => exact array_refuses h.lawful hv hput
          | _ => exact hv.elim
      | none =>
          have hallowed : allowed = true := hv
          obtain ⟨bytes, hbytes⟩ := len.put_none
          simp only [nullableCounted, if_pos hallowed, hbytes] at hput
          cases hput
      | _ => exact hv.elim }

end Arrays

section Fields

variable {flexible allowed : Bool} {sizeOf : SizeOf} {call : String → WireCodec Value}
  (hcall : ∀ name, LawfulWire (call name))

include hcall

theorem elementCodec_solid (elem : FieldType) : Solid (elementCodec flexible call elem) := by
  have hleaf := (leafCodec_flat flexible elem).toSolid
  cases elem with
  | struct name => exact wide_solid (hcall name)
  | bytes => exact nowhere_flat.toSolid
  | records => exact nowhere_flat.toSolid
  | array elem => exact nowhere_flat.toSolid
  | _ => exact hleaf

theorem valueCodec_lawful (ftype : FieldType) :
    LawfulWire (valueCodec flexible sizeOf call ftype) := by
  have hleaf := (leafCodec_flat flexible ftype).lawful
  cases ftype with
  | struct name => exact hcall name
  | array elem => exact counted_lawful (elementCodec_solid hcall elem)
  | _ => exact hleaf

theorem nullableCodec_lawful (field : String) (ftype : FieldType) :
    LawfulWire (nullableCodec flexible allowed sizeOf call field ftype) := by
  cases ftype with
  | string =>
      cases flexible with
      | false => exact nullable_lawful nullableString_flat.lawful
      | true => exact nullable_lawful compactNullableString_flat.lawful
  | bytes =>
      cases flexible with
      | false => exact nullable_lawful (nullableBytes_flat fun _ => holds_bytes).lawful
      | true => exact nullable_lawful (compactNullableBytes_flat fun _ => holds_bytes).lawful
  | records =>
      cases flexible with
      | false => exact nullable_lawful (nullableBytes_flat fun _ => holds_records).lawful
      | true => exact nullable_lawful (compactNullableBytes_flat fun _ => holds_records).lawful
  | struct name => exact marked_lawful (hcall name)
  | array elem => exact nullableCounted_lawful (elementCodec_solid hcall elem)
  | _ => exact nowhere_flat.lawful

variable {msg : Message} {version : Int16}

theorem fieldCodec_lawful (f : Field) : LawfulWire (fieldCodec msg version sizeOf call f) := by
  unfold fieldCodec
  cases f.nullable with
  | none => exact valueCodec_lawful hcall f.ftype
  | some range => exact nullableCodec_lawful hcall f.name f.ftype

theorem wireCodec_lawful (f : Field) (default : Value) :
    LawfulWire (wireCodec msg version sizeOf call f default) := by
  unfold wireCodec
  split
  · exact fieldCodec_lawful hcall f
  · exact .absent default

end Fields

end Odradek.Codegen
