import Odradek.Protocol.VarintReading

/-!
Tagged-field sections, from both sides. What the writer wrote is read back when
the tags ascend and refused for their order when they do not. Whatever the
bytes are, the reader ends within a turn for each byte, and what it returns
ascends and is spelled, field by field, by the bytes it took.
-/

namespace Odradek.Protocol

open Library Library.Decoder

/-- A field as the source's types have it: a `u32` tag, data of at most
`isize::MAX` bytes. -/
def RawTaggedField.Sized (field : RawTaggedField) : Prop :=
  field.tag ≤ u32Max ∧ field.data.length ≤ i64Max

instance (field : RawTaggedField) : Decidable field.Sized :=
  inferInstanceAs (Decidable (_ ∧ _))

/-- Every tag is above the one before it. -/
abbrev Ascending (fields : List RawTaggedField) : Prop :=
  fields.Pairwise fun a b => a.tag < b.tag

/-- The same after a field that was read before. -/
def AscendingAfter (previous : Option Nat) (fields : List RawTaggedField) : Prop :=
  (∀ tag, previous = some tag → ∀ field ∈ fields, tag < field.tag) ∧ Ascending fields

theorem ascendingAfter_none {fields : List RawTaggedField} :
    AscendingAfter none fields ↔ Ascending fields :=
  ⟨fun h => h.2, fun h => ⟨fun _ hnone => (by cases hnone), h⟩⟩

theorem ascendingAfter_cons {previous : Option Nat} {field : RawTaggedField}
    {fields : List RawTaggedField} :
    AscendingAfter previous (field :: fields) ↔
      (∀ tag, previous = some tag → tag < field.tag) ∧ AscendingAfter (some field.tag) fields := by
  simp only [AscendingAfter, Ascending, List.pairwise_cons]
  refine ⟨?_, ?_⟩
  · rintro ⟨hprevious, hfield, hrest⟩
    refine ⟨fun tag h => hprevious tag h field List.mem_cons_self, ?_, hrest⟩
    rintro _ ⟨⟩
    exact hfield
  · rintro ⟨hfield, hafter, hrest⟩
    refine ⟨?_, hafter field.tag rfl, hrest⟩
    intro tag h other hmem
    obtain rfl | hmem := List.mem_cons.mp hmem
    · exact hfield tag h
    · exact Nat.lt_trans (hfield tag h) (hafter field.tag rfl other hmem)

section Written

/-- A field in its place is read and pushed. -/
theorem taggedField_pushed {previous : Option Nat} {field : RawTaggedField}
    {read : Vec RawTaggedField} {ledger : Ledger} {β : Type}
    (f : RawTaggedField → Vec RawTaggedField → Decode β) (suffix : Bytes)
    (hlimit : ledger.budget.limit = usizeMax)
    (hread : read.Pushed rawTaggedFieldSize) (hsized : field.Sized)
    (horder : ∀ tag, previous = some tag → tag < field.tag) :
    ∃ ledger', ledger'.budget.limit = usizeMax ∧
      (getTaggedField previous >>= fun field =>
          push rawTaggedFieldSize read field >>= f field)
          ⟨putTaggedField field ++ suffix, ledger⟩ =
        f field (read.append rawTaggedFieldSize field) ⟨suffix, ledger'⟩ := by
  have hfield := (getTaggedField_reads horder hsized.1 hsized.2 suffix ledger).1 ledger rfl
  obtain ⟨ledger', hspend, hlimit'⟩ :=
    spend_unlimited (pushCharges rawTaggedFieldSize read.items.length) ledger hlimit
  have hpush := (push_decodes hread field suffix ledger).1 ledger' hspend
  refine ⟨ledger', hlimit', ?_⟩
  rw [bind_apply, hfield]
  simp only
  rw [bind_apply, ← List.nil_append suffix, hpush]
  rfl

/-- A field out of its place is refused before its data is looked at. -/
theorem taggedField_refused {previous : Nat} {field : RawTaggedField} (suffix : Bytes)
    (ledger : Ledger) (htag : field.tag ≤ u32Max) (horder : field.tag ≤ previous) :
    ∃ t, getTaggedField (some previous) ⟨putTaggedField field ++ suffix, ledger⟩ =
      .error (.error (.taggedFieldOrder previous field.tag)) t := by
  have hfits : field.tag < 2 ^ 64 := by
    unfold u32Max at htag
    omega
  have hread := (getUnsignedVarint_reads hfits
    (putUnsignedVarint field.data.length ++ (field.data ++ suffix)) ledger).1 ledger rfl
  rw [getTaggedField, putTaggedField, List.append_assoc, List.append_assoc, bind_apply, hread]
  simp only [checkTagOrder, failIf, if_neg (Nat.not_lt.mpr htag), if_pos horder, bind_apply,
    pure_apply]
  exact ⟨_, rfl⟩

theorem getTaggedFieldsLoop_written (fields : List RawTaggedField) (previous : Option Nat)
    (read : Vec RawTaggedField) (suffix : Bytes) (ledger : Ledger)
    (hlimit : ledger.budget.limit = usizeMax) (hread : read.Pushed rawTaggedFieldSize)
    (hsized : ∀ field ∈ fields, field.Sized) :
    (AscendingAfter previous fields → ∃ ledger',
      getTaggedFieldsLoop fields.length previous read
          ⟨fields.flatMap putTaggedField ++ suffix, ledger⟩ =
        .ok (read.extend rawTaggedFieldSize fields) ⟨suffix, ledger'⟩) ∧
    (¬ AscendingAfter previous fields → ∃ before tag t, tag ≤ before ∧
      getTaggedFieldsLoop fields.length previous read
          ⟨fields.flatMap putTaggedField ++ suffix, ledger⟩ =
        .error (.error (.taggedFieldOrder before tag)) t) := by
  induction fields generalizing previous read ledger with
  | nil =>
      refine ⟨fun _ => ⟨ledger, ?_⟩, fun h => absurd ⟨?_, .nil⟩ h⟩
      · rw [hread.extend_nil]
        rfl
      · intro _ _ _ hmem
        cases hmem
  | cons field fields ih =>
      have hfield := hsized field List.mem_cons_self
      rw [List.flatMap_cons, List.append_assoc, List.length_cons, getTaggedFieldsLoop,
        ascendingAfter_cons]
      by_cases horder : ∀ tag, previous = some tag → tag < field.tag
      · obtain ⟨ledger', hlimit', hstep⟩ := taggedField_pushed
          (fun field => getTaggedFieldsLoop fields.length (some field.tag))
          (fields.flatMap putTaggedField ++ suffix) hlimit hread hfield horder
        have hrest := ih (some field.tag) (read.append rawTaggedFieldSize field) ledger' hlimit'
          (Vec.Pushed.append field) fun other hmem => hsized other (List.mem_cons_of_mem _ hmem)
        rw [Vec.append_extend] at hrest
        obtain ⟨hok, hrefuse⟩ := hrest
        rw [hstep]
        refine ⟨fun h => hok h.2, fun h => hrefuse fun hafter => h ⟨horder, hafter⟩⟩
      · obtain ⟨before, rfl, hle⟩ : ∃ before, previous = some before ∧ field.tag ≤ before := by
          simp only [not_forall, Nat.not_lt] at horder
          obtain ⟨before, hsome, hle⟩ := horder
          exact ⟨before, hsome, hle⟩
        obtain ⟨t, hrefused⟩ := taggedField_refused
          (fields.flatMap putTaggedField ++ suffix) ledger hfield.1 hle
        refine ⟨fun h => absurd h.1 horder, fun _ => ⟨before, field.tag, t, hle, ?_⟩⟩
        rw [bind_apply, hrefused]

end Written

section Accepted

/-- A tag, a size and that many bytes. -/
def FieldSpelled (piece : Bytes) (field : RawTaggedField) : Prop :=
  ∃ tag size, piece = tag ++ (size ++ field.data) ∧ Spells tag field.tag ∧
    Spells size field.data.length

/-- The bytes of a section: the count, and the fields one after the other. -/
def SectionSpelled (used : Bytes) (fields : List RawTaggedField) : Prop :=
  ∃ count pieces, used = count ++ pieces.flatten ∧ Spells count fields.length ∧
    List.Forall₂ FieldSpelled pieces fields

variable {s t : Reader Ledger}

theorem checkTagOrder_ok {previous : Option Nat} {tag : Nat} {u : Unit}
    (h : checkTagOrder previous tag s = .ok u t) :
    t = s ∧ ∀ before, previous = some before → before < tag := by
  cases previous with
  | none =>
      cases h
      exact ⟨rfl, fun _ hnone => (by cases hnone)⟩
  | some before =>
      obtain ⟨hlt, rfl⟩ := failIf_ok h
      refine ⟨rfl, ?_⟩
      rintro _ ⟨⟩
      exact Nat.lt_of_not_le hlt

theorem getTaggedField_ok {previous : Option Nat} {field : RawTaggedField}
    (h : getTaggedField previous s = .ok field t) :
    (∀ tag, previous = some tag → tag < field.tag) ∧
      ∃ piece, s.bytes = piece ++ t.bytes ∧ FieldSpelled piece field := by
  obtain ⟨tag, s₁, htag, h⟩ := bind_eq_ok.mp h
  obtain ⟨_, s₂, hmax, h⟩ := bind_eq_ok.mp h
  obtain ⟨_, s₃, horder, h⟩ := bind_eq_ok.mp h
  obtain ⟨raw, s₄, hraw, h⟩ := bind_eq_ok.mp h
  obtain ⟨len, s₅, hlen, h⟩ := bind_eq_ok.mp h
  obtain ⟨data, s₆, hdata, h⟩ := bind_eq_ok.mp h
  cases h
  obtain ⟨_, rfl⟩ := failIf_ok hmax
  obtain ⟨rfl, hbefore⟩ := checkTagOrder_ok horder
  obtain ⟨tagBytes, htagBytes, _, htagSpelled⟩ := getUnsignedVarint_ok htag
  obtain ⟨sizeBytes, hsizeBytes, _, hsizeSpelled⟩ := getUnsignedVarint_ok hraw
  obtain ⟨rfl, hnonneg, rfl⟩ := lenFrom_ok hlen
  obtain ⟨hdataBytes, hdataLen⟩ := takeBytes_ok hdata
  have hraw : (if raw ≤ i64Max then (raw : Int) else -1).toNat = raw := by
    split at hnonneg
    · rw [if_pos ‹_›, Int.toNat_natCast]
    · omega
  rw [hraw] at hdataLen
  refine ⟨hbefore, tagBytes ++ (sizeBytes ++ data), ?_, tagBytes, sizeBytes, rfl, htagSpelled, ?_⟩
  · rw [htagBytes, hsizeBytes, hdataBytes]
    simp only [List.append_assoc]
  · rw [hdataLen]
    exact hsizeSpelled

/-- What the section's loop reads is spelled in what it took. -/
theorem getTaggedFieldsLoop_ok (count : Nat) {previous : Option Nat}
    {read vec : Vec RawTaggedField} (h : getTaggedFieldsLoop count previous read s = .ok vec t) :
    ∃ fields pieces, vec.items = read.items ++ fields ∧ fields.length = count ∧
      AscendingAfter previous fields ∧ s.bytes = pieces.flatten ++ t.bytes ∧
      List.Forall₂ FieldSpelled pieces fields := by
  induction count generalizing previous read s with
  | zero =>
      cases h
      exact ⟨[], [], (List.append_nil _).symm, rfl, ⟨fun _ _ _ hmem => (by cases hmem), .nil⟩,
        rfl, .nil⟩
  | succ count ih =>
      obtain ⟨field, s₁, hfield, h⟩ := bind_eq_ok.mp h
      obtain ⟨pushed, s₂, hpush, h⟩ := bind_eq_ok.mp h
      obtain ⟨horder, piece, hpiece, hspelled⟩ := getTaggedField_ok hfield
      obtain ⟨hitems, hbytes⟩ := push_items hpush
      obtain ⟨fields, pieces, hread, hlen, hascend, hpieces, hall⟩ := ih h
      refine ⟨field :: fields, piece :: pieces, ?_, by rw [List.length_cons, hlen],
        ascendingAfter_cons.mpr ⟨horder, hascend⟩, ?_, .cons hspelled hall⟩
      · rw [hread, hitems, List.append_assoc, List.singleton_append]
      · rw [hpiece, ← hbytes, hpieces, List.flatten_cons, List.append_assoc]

theorem getTaggedFields_ok {fields : List RawTaggedField} (h : getTaggedFields s = .ok fields t) :
    Ascending fields ∧ ∃ used, s.bytes = used ++ t.bytes ∧ SectionSpelled used fields := by
  obtain ⟨count, s₁, hcount, h⟩ := bind_eq_ok.mp h
  obtain ⟨vec, s₂, hloop, h⟩ := bind_eq_ok.mp h
  cases h
  obtain ⟨countBytes, hcountBytes, _, hspelled⟩ := getUnsignedVarint_ok hcount
  obtain ⟨fields, pieces, hread, hlen, hascend, hpieces, hall⟩ := getTaggedFieldsLoop_ok count hloop
  have hitems : vec.items = fields := hread
  rw [hitems]
  refine ⟨ascendingAfter_none.mp hascend, countBytes ++ pieces.flatten, ?_, countBytes, pieces, rfl,
    by rwa [hlen], hall⟩
  rw [hcountBytes, hpieces, List.append_assoc]

end Accepted

section Bounded

/-- Never panics, and what it returns is less than it reads. -/
theorem takeBytes_safe (n : Nat) : Safe (takeBytes n) := by
  intro s
  by_cases h : n ≤ s.bytes.length
  · rw [takeBytes, bind_apply, ensure_apply h]
    simp only [copyToBytes, Decoder.split, if_pos h]
    by_cases hzero : n = 0
    · exact .inl ⟨by rw [hzero, List.drop_zero], rfl⟩
    · refine .inr ⟨?_, ?_⟩ <;> simp only [List.length_drop] <;> omega
  · have herr : takeBytes n s = .error (.error (.truncated (n - s.bytes.length))) s := by
      rw [takeBytes, ensure]
      simp only [bind_apply, remaining, failIf, if_pos (Nat.lt_of_not_le h)]
      rfl
    rw [herr]
    exact ⟨fun hpanic => (by cases hpanic), .refl s⟩

theorem getFixed_safe (width : Nat) : Safe (getFixed width) :=
  Frugal.bind (takeBytes_safe width) fun _ => .pure _

theorem getVarintRounds_safe (rounds shift value : Nat) :
    Safe (getVarintRounds rounds shift value) := by
  induction rounds generalizing shift value with
  | zero => exact safe_fail _
  | succ rounds ih =>
      refine Frugal.bind (getFixed_safe 1) fun byte => ?_
      by_cases hover : shift = 63 ∧ byte &&& 0xfe ≠ 0
      · simp only [if_pos hover]
        exact safe_fail _
      · simp only [if_neg hover]
        by_cases hlast : byte &&& 0x80 = 0
        · simp only [if_pos hlast]
          exact .pure _
        · simp only [if_neg hlast]
          by_cases hend : 63 < shift + 7
          · simp only [if_pos hend]
            exact safe_fail _
          · simp only [if_neg hend]
            exact ih _ _

theorem getUnsignedVarint_consumes : Consumes getUnsignedVarint := by
  intro s value t h
  obtain ⟨used, hbytes, _, hspelled⟩ := getUnsignedVarint_ok h
  have := hspelled.length_pos
  rw [hbytes, List.length_append]
  omega

theorem checkTagOrder_safe (previous : Option Nat) (tag : Nat) :
    Safe (checkTagOrder previous tag) := by
  cases previous with
  | none => exact .pure _
  | some previous => exact safe_failIf _ _

theorem lenFrom_safe (raw : Int) : Safe (lenFrom raw) := by
  unfold lenFrom
  split
  · exact safe_fail _
  · exact .pure _

theorem getTaggedField_safe (previous : Option Nat) : Safe (getTaggedField previous) := by
  refine Frugal.bind (getVarintRounds_safe 10 0 0) fun tag => ?_
  refine Frugal.bind (safe_failIf _ _) fun _ => ?_
  refine Frugal.bind (checkTagOrder_safe previous tag) fun _ => ?_
  refine Frugal.bind (getVarintRounds_safe 10 0 0) fun raw => ?_
  refine Frugal.bind (lenFrom_safe _) fun len => ?_
  exact Frugal.bind (takeBytes_safe len) fun _ => .pure _

theorem getTaggedField_consumes (previous : Option Nat) : Consumes (getTaggedField previous) := by
  intro s field t h
  obtain ⟨_, piece, hbytes, tag, size, hpiece, htag, _⟩ := getTaggedField_ok h
  have := htag.length_pos
  rw [hbytes, hpiece]
  simp only [List.length_append]
  omega

/-- Each turn of the loop takes at least a byte. -/
theorem getTaggedFieldsLoop_breaksEven (count : Nat) (previous : Option Nat)
    (read : Vec RawTaggedField) : BreaksEven (getTaggedFieldsLoop count previous read) := by
  induction count generalizing previous read with
  | zero => exact Frugal.thrifty (.pure _)
  | succ count ih =>
      have hturn : BreaksEven (getTaggedField previous >>= fun field =>
          push rawTaggedFieldSize read field >>= fun fields => pure (field, fields)) := by
        refine Frugal.bind_counted (getTaggedField_safe previous) (getTaggedField_consumes previous)
          fun field s => ?_
        have hpush := push_counts rawTaggedFieldSize read field s
        rw [bind_apply]
        cases hresult : push rawTaggedFieldSize read field s with
        | ok fields u =>
            simp only [hresult] at hpush
            exact hpush
        | error e u =>
            simp only [hresult] at hpush
            exact hpush
      have hsplit : getTaggedFieldsLoop (count + 1) previous read =
          (getTaggedField previous >>= fun field =>
            push rawTaggedFieldSize read field >>= fun fields => pure (field, fields)) >>=
          fun step => getTaggedFieldsLoop count (some step.1.tag) step.2 := by
        simp only [getTaggedFieldsLoop, bind_assoc, pure_bind]
      rw [hsplit]
      exact Thrifty.bind hturn fun step => ih _ _

theorem getTaggedFields_safe : Safe getTaggedFields :=
  Frugal.bind_thrifty (getVarintRounds_safe 10 0 0) getUnsignedVarint_consumes fun count =>
    Thrifty.bind (getTaggedFieldsLoop_breaksEven count none _) fun _ => Frugal.thrifty (.pure _)

end Bounded

/-- A written section reads back where its tags ascend, and is refused elsewhere. -/
theorem getTaggedFields_written {fields : List RawTaggedField} {suffix : Bytes} {ledger : Ledger}
    (hlimit : ledger.budget.limit = usizeMax) (hcount : fields.length < 2 ^ 64)
    (hsized : ∀ field ∈ fields, field.Sized) :
    (Ascending fields → ∃ ledger',
      getTaggedFields ⟨putTaggedFields fields ++ suffix, ledger⟩ = .ok fields ⟨suffix, ledger'⟩) ∧
    (¬ Ascending fields → ∃ before tag t, tag ≤ before ∧
      getTaggedFields ⟨putTaggedFields fields ++ suffix, ledger⟩ =
        .error (.error (.taggedFieldOrder before tag)) t) := by
  have hread := (getUnsignedVarint_reads hcount (fields.flatMap putTaggedField ++ suffix)
    ledger).1 ledger rfl
  obtain ⟨hok, hrefuse⟩ := getTaggedFieldsLoop_written fields none (Vec.new rawTaggedFieldSize)
    suffix ledger hlimit .new hsized
  rw [ascendingAfter_none] at hok hrefuse
  have hrun : getTaggedFields ⟨putTaggedFields fields ++ suffix, ledger⟩ =
      (getTaggedFieldsLoop fields.length none (Vec.new rawTaggedFieldSize) >>= fun vec =>
        pure vec.items) ⟨fields.flatMap putTaggedField ++ suffix, ledger⟩ := by
    rw [getTaggedFields, putTaggedFields, List.append_assoc, bind_apply, hread]
  rw [hrun, bind_apply]
  refine ⟨fun h => ?_, fun h => ?_⟩
  · obtain ⟨ledger', hloop⟩ := hok h
    exact ⟨ledger', by rw [hloop]; rfl⟩
  · obtain ⟨before, tag, t, hle, hloop⟩ := hrefuse h
    exact ⟨before, tag, t, hle, by rw [hloop]⟩

/-- A section is read back exactly when its tags ascend. Whatever the bytes,
the reader never panics, keeps at most a field for each byte it takes, and
returns fields in order that spell out every byte it took. -/
theorem taggedFields_codec :
    (∀ (fields : List RawTaggedField) (suffix : Bytes) (ledger : Ledger),
      ledger.budget.limit = usizeMax → fields.length < 2 ^ 64 →
      (∀ field ∈ fields, field.Sized) →
      (Ascending fields → ∃ ledger',
        getTaggedFields ⟨putTaggedFields fields ++ suffix, ledger⟩ =
          .ok fields ⟨suffix, ledger'⟩) ∧
      (¬ Ascending fields → ∃ before tag t, tag ≤ before ∧
        getTaggedFields ⟨putTaggedFields fields ++ suffix, ledger⟩ =
          .error (.error (.taggedFieldOrder before tag)) t)) ∧
    ∀ (bytes : Bytes) (ledger : Ledger),
      match getTaggedFields ⟨bytes, ledger⟩ with
      | .ok fields t =>
        Ascending fields ∧ (∃ used, bytes = used ++ t.bytes ∧ SectionSpelled used fields) ∧
          t.bytes.length + t.state.decoded ≤ bytes.length + ledger.decoded
      | .error e t => e ≠ .panic ∧
          t.bytes.length + t.state.decoded ≤ bytes.length + ledger.decoded := by
  refine ⟨fun fields suffix ledger hlimit hcount hsized =>
    getTaggedFields_written hlimit hcount hsized, fun bytes ledger => ?_⟩
  have hsafe := getTaggedFields_safe ⟨bytes, ledger⟩
  cases hresult : getTaggedFields ⟨bytes, ledger⟩ with
  | ok fields t =>
      simp only [hresult] at hsafe
      obtain ⟨hascend, hspelled⟩ := getTaggedFields_ok hresult
      exact ⟨hascend, hspelled, Spends.le hsafe⟩
  | error e t =>
      simp only [hresult] at hsafe
      exact ⟨hsafe.1, Spends.le hsafe.2⟩

/-- Two fields in order, then the same two the other way round. -/
theorem taggedFields_codec_two :
    (∃ ledger', getTaggedFields ⟨putTaggedFields [⟨0, [7]⟩, ⟨300, []⟩] ++ [9],
        { budget := .new usizeMax, decoded := 0 }⟩ =
      .ok [⟨0, [7]⟩, ⟨300, []⟩] ⟨[9], ledger'⟩) ∧
    ∃ before tag t, tag ≤ before ∧
      getTaggedFields ⟨putTaggedFields [⟨300, []⟩, ⟨0, [7]⟩] ++ [9],
          { budget := .new usizeMax, decoded := 0 }⟩ =
        .error (.error (.taggedFieldOrder before tag)) t := by
  refine ⟨(taggedFields_codec.1 _ [9] _ rfl (by decide) ?_).1 ?_,
    (taggedFields_codec.1 _ [9] _ rfl (by decide) ?_).2 ?_⟩ <;> decide

end Odradek.Protocol
