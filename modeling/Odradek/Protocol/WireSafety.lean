import Odradek.Library.ShortInputs
import Odradek.Protocol.WireSettling

/-!
The primitive decoders on any bytes: none panics, each that returns has read
something, and the elements of arrays and tagged sections are paid for with the
bytes they came in. A tagged field comes in two bytes more than its data, enough
to keep it once as it was read and once more when it turns out to be unknown.
-/

namespace Odradek.Protocol

open Library Library.Decoder

section Primitives

variable {α : Type} {d : Decode α}

theorem Rewrites.consumes {put : α → Except EncodeError Bytes} (h : Rewrites d put) :
    Consumes d := by
  intro s a t hd
  obtain ⟨used, bytes, hused, _, hne, hle⟩ := h s a t hd
  have := List.length_pos_iff.mpr hne
  rw [hused, List.length_append]
  omega

theorem getUuid_consumes : Consumes getUuid := by
  intro s bytes t h
  obtain ⟨hbytes, hlen⟩ := getUuid_ok h
  rw [hbytes, List.length_append, hlen]
  unfold uuidLen
  omega

theorem safe_ite {c : Prop} [Decidable c] {d d' : Decode α} (h : Safe d) (h' : Safe d') :
    Safe (if c then d else d') := by
  split
  · exact h
  · exact h'

theorem parseUtf8_safe (bytes : Bytes) : Safe (parseUtf8 bytes) := by
  unfold parseUtf8
  split
  · exact .pure _
  · exact safe_fail _

theorem readUtf8_safe (len : Nat) : Safe (readUtf8 len) :=
  Frugal.bind (takeBytes_safe len) parseUtf8_safe

theorem compactLen_safe (raw : Nat) : Safe (compactLen raw) :=
  safe_ite (safe_fail _) (.pure _)

theorem notNull_safe (value : Option α) : Safe (notNull value) := by
  cases value with
  | some value => exact .pure value
  | none => exact safe_fail _

theorem getUnsignedVarint_safe : Safe getUnsignedVarint := getVarintRounds_safe 10 0 0

theorem getI16_safe : Safe getI16 := Frugal.bind (getFixed_safe 2) fun _ => .pure _

theorem getI32_safe : Safe getI32 := Frugal.bind (getFixed_safe 4) fun _ => .pure _

/-- A marker for null, or a length and what it counts. -/
theorem marked_safe {κ : Type} {marker : Decode κ} {null : κ → Prop} [DecidablePred null]
    {len : κ → Decode Nat} {read : Nat → Decode α} (hmarker : Safe marker)
    (hlen : ∀ k, Safe (len k)) (hread : ∀ n, Safe (read n)) :
    Safe (do
      let k ← marker
      if null k then pure none
      else
        let n ← len k
        let a ← read n
        pure (some a)) :=
  Frugal.bind hmarker fun k => safe_ite (.pure none) <|
    Frugal.bind (hlen k) fun n => Frugal.bind (hread n) fun a => .pure (some a)

theorem getNullableString_safe : Safe getNullableString :=
  marked_safe getI16_safe (fun _ => lenFrom_safe _) readUtf8_safe

theorem getCompactNullableString_safe : Safe getCompactNullableString :=
  marked_safe getUnsignedVarint_safe (fun _ => compactLen_safe _) readUtf8_safe

theorem getNullableBytes_safe : Safe getNullableBytes :=
  marked_safe getI32_safe (fun _ => lenFrom_safe _) takeBytes_safe

theorem getCompactNullableBytes_safe : Safe getCompactNullableBytes :=
  marked_safe getUnsignedVarint_safe (fun _ => compactLen_safe _) takeBytes_safe

theorem getArrayLen_safe : Safe getArrayLen :=
  Frugal.bind getI32_safe fun _ => safe_ite (.pure none) <|
    Frugal.bind (lenFrom_safe _) fun len => .pure (some len)

theorem getCompactArrayLen_safe : Safe getCompactArrayLen :=
  Frugal.bind getUnsignedVarint_safe fun _ => safe_ite (.pure none) <|
    Frugal.bind (compactLen_safe _) fun len => .pure (some len)

end Primitives

section Items

variable {α : Type} {n : Nat} {item : Decode α}

abbrev SafeTo (n : Nat) (d : Decode α) : Prop := FrugalTo (· = Halt.panic) Ledger.decoded n d

abbrev BreaksEvenTo (n : Nat) (d : Decode α) : Prop := ThriftyTo (· = Halt.panic) Ledger.decoded n d

theorem progressing_safe (h : SafeTo n item) : SafeTo n (progressing item) :=
  FrugalTo.bind (Frugal.remaining.upTo) fun _ => FrugalTo.bind h fun _ =>
    FrugalTo.bind (Frugal.remaining.upTo) fun _ =>
      FrugalTo.bind (safe_failIf _ _).upTo fun _ => (Frugal.pure _).upTo

/-- A push adds one element. -/
theorem push_adds (elem : Nat) (items : Vec α) (value : α) :
    BoundedTo (· = Halt.panic) (Adds Ledger.decoded 1) n (push elem items value) := by
  intro s _
  have h := push_counts elem items value s
  cases hrun : push elem items value s with
  | ok pushed t =>
      rw [hrun] at h
      exact h
  | error e t =>
      rw [hrun] at h
      exact h

/-- Every element is paid for by the bytes it was read from. -/
theorem getItems_breaksEven (elem count : Nat) (h : SafeTo n item) (hc : Consumes item)
    (read : Vec α) : BreaksEvenTo n (getItems elem item count read) := by
  induction count generalizing read with
  | zero => exact (Frugal.pure read).upTo.thrifty
  | succ count ih =>
      have hturn : BreaksEvenTo n (item >>= fun value => push elem read value) :=
        ThriftyTo.counted h hc fun value _ => push_adds elem read value
      have hsplit : getItems elem item (count + 1) read =
          (item >>= fun value => push elem read value) >>= getItems elem item count := by
        simp only [getItems, bind_assoc]
      rw [hsplit]
      exact ThriftyTo.bind hturn ih

end Items

section Tagged

variable {s t : Reader Ledger}

/-- What keeping each field once more costs, or decoding it. -/
def keepingCost (fields : List RawTaggedField) : Nat :=
  (fields.map fun field => field.data.length + 1).sum

theorem failIf_quiet (c : Prop) [Decidable c] (e : DecodeError) : Quiet (failIf c e) := by
  unfold failIf
  split
  · exact .throw _
  · exact .pure _

theorem takeBytes_quiet (n : Nat) : Quiet (takeBytes n) :=
  .bind (.bind .remaining fun _ => failIf_quiet _ _) fun _ => .split _ n

theorem lenFrom_quiet (raw : Int) : Quiet (lenFrom raw) := by
  unfold lenFrom
  split
  · exact .throw _
  · exact .pure _

theorem checkTagOrder_quiet (previous : Option Nat) (tag : Nat) :
    Quiet (checkTagOrder previous tag) := by
  cases previous with
  | none => exact .pure _
  | some previous => exact failIf_quiet _ _

theorem getVarintRounds_quiet (rounds shift value : Nat) :
    Quiet (getVarintRounds rounds shift value) := by
  induction rounds generalizing shift value with
  | zero => exact .throw _
  | succ rounds ih =>
      refine .bind (.bind (takeBytes_quiet 1) fun _ => .pure _) fun byte => ?_
      by_cases hover : shift = 63 ∧ byte &&& 0xfe ≠ 0
      · simp only [if_pos hover]
        exact .throw _
      · by_cases hlast : byte &&& 0x80 = 0
        · simp only [if_neg hover, if_pos hlast]
          exact .pure _
        · by_cases hend : 63 < shift + 7
          · simp only [if_neg hover, if_neg hlast, if_pos hend]
            exact .throw _
          · simp only [if_neg hover, if_neg hlast, if_neg hend]
            exact ih _ _

theorem getTaggedField_quiet (previous : Option Nat) : Quiet (getTaggedField previous) :=
  .bind (getVarintRounds_quiet 10 0 0) fun _ => .bind (failIf_quiet _ _) fun _ =>
    .bind (checkTagOrder_quiet _ _) fun _ => .bind (getVarintRounds_quiet 10 0 0) fun _ =>
      .bind (lenFrom_quiet _) fun len => .bind (takeBytes_quiet len) fun _ => .pure _

/-- A tag and a size before the data. -/
theorem FieldSpelled.length_ge {piece : Bytes} {field : RawTaggedField}
    (h : FieldSpelled piece field) : field.data.length + 2 ≤ piece.length := by
  obtain ⟨tag, size, rfl, htag, hsize⟩ := h
  have := htag.length_pos
  have := hsize.length_pos
  simp only [List.length_append]
  omega

theorem push_decoded {α : Type} {elem : Nat} {items pushed : Vec α} {value : α}
    (h : push elem items value s = .ok pushed t) : t.state.decoded ≤ s.state.decoded + 1 := by
  have hcounts := push_counts elem items value s
  rw [h] at hcounts
  exact hcounts.2

/-- What the fields cost to keep is paid for in bytes. -/
theorem getTaggedFieldsLoop_pays (count : Nat) {previous : Option Nat}
    {read vec : Vec RawTaggedField} (h : getTaggedFieldsLoop count previous read s = .ok vec t) :
    ∃ fields, vec.items = read.items ++ fields ∧
      t.bytes.length + t.state.decoded + keepingCost fields ≤
        s.bytes.length + s.state.decoded := by
  induction count generalizing previous read s with
  | zero =>
      cases h
      exact ⟨[], (List.append_nil _).symm, Nat.le_refl _⟩
  | succ count ih =>
      obtain ⟨field, u, hfield, h⟩ := bind_eq_ok.mp h
      obtain ⟨pushed, v, hpush, h⟩ := bind_eq_ok.mp h
      obtain ⟨_, piece, hpiece, hspelled⟩ := getTaggedField_ok hfield
      obtain ⟨hitems, hbytes⟩ := push_items hpush
      have hquiet := getTaggedField_quiet previous s field u hfield
      have hcount := push_decoded hpush
      have hlen := hspelled.length_ge
      obtain ⟨fields, hread, hrest⟩ := ih h
      refine ⟨field :: fields, by rw [hread, hitems, List.append_assoc, List.singleton_append], ?_⟩
      have hs : s.bytes.length = piece.length + u.bytes.length := by
        rw [hpiece, List.length_append]
      rw [hquiet] at hcount
      rw [hbytes] at hrest
      simp only [keepingCost, List.map_cons, List.sum_cons] at hrest ⊢
      omega

/-- A section pays for its fields once more, with a byte to spare. -/
theorem getTaggedFields_pays {fields : List RawTaggedField} (h : getTaggedFields s = .ok fields t) :
    t.bytes.length + t.state.decoded + keepingCost fields < s.bytes.length + s.state.decoded := by
  obtain ⟨count, u, hcount, h⟩ := bind_eq_ok.mp h
  obtain ⟨vec, v, hloop, h⟩ := bind_eq_ok.mp h
  cases h
  obtain ⟨fields, hread, hpays⟩ := getTaggedFieldsLoop_pays count hloop
  have hitems : vec.items = fields := hread
  have hlt := getUnsignedVarint_consumes s count u hcount
  have hquiet := getVarintRounds_quiet 10 0 0 s count u hcount
  rw [hquiet] at hpays
  rw [hitems]
  omega

theorem data_lt_of_getTaggedFields {fields : List RawTaggedField}
    (h : getTaggedFields s = .ok fields t) {field : RawTaggedField} (hmem : field ∈ fields) :
    field.data.length < s.bytes.length := by
  obtain ⟨hascend, used, hused, count, pieces, rfl, hcount, hpieces⟩ := getTaggedFields_ok h
  have hpos := hcount.length_pos
  have hle : field.data.length ≤ pieces.flatten.length := by
    clear hascend hcount hused h
    induction hpieces with
    | nil => exact absurd hmem List.not_mem_nil
    | cons hfirst _ ih =>
        rw [List.flatten_cons, List.length_append]
        obtain rfl | hmem := List.mem_cons.mp hmem
        · have := hfirst.length_ge
          omega
        · have := ih hmem
          omega
  rw [hused]
  simp only [List.length_append]
  omega

end Tagged

end Odradek.Protocol
