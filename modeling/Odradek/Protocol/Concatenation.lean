import Odradek.Library.Evenhanded
import Odradek.Protocol.Reencoding

/-!
A set that ends with a whole batch is read the same in front of another set as it is
alone, as long as the budget of both together is enough: a batch is what its frame
says, whatever follows it and whatever was granted before.
-/

namespace Odradek.Protocol

open Library Library.Decoder

section Evenhanded

variable {α : Type} {s t : Reader Ledger}

theorem failIf_evenhanded (c : Prop) [Decidable c] (e : DecodeError) : Evenhanded (failIf c e) :=
  .either (.throw _) (.pure _)

theorem ensure_evenhanded (n : Nat) : Evenhanded (ensure n) :=
  Evenhanded.remaining.bind fun _ => failIf_evenhanded _ _

theorem lenFrom_evenhanded (raw : Int) : Evenhanded (lenFrom raw) := .either (.throw _) (.pure _)

theorem takeBytes_evenhanded (n : Nat) : Evenhanded (takeBytes n) :=
  (ensure_evenhanded n).bind fun _ => .split _ n

theorem rawFixed_evenhanded (width : Nat) : Evenhanded (rawFixed width) :=
  (Evenhanded.split _ width).bind fun _ => .pure _

theorem getVarintRounds_evenhanded (rounds shift value : Nat) :
    Evenhanded (getVarintRounds rounds shift value) := by
  induction rounds generalizing shift value with
  | zero => exact .throw _
  | succ rounds ih =>
      refine ((takeBytes_evenhanded 1).bind fun _ => .pure _).bind fun byte => ?_
      exact .either (.throw _) (.either (.pure _) (.either (.throw _) (ih _ _)))

theorem getVarint_evenhanded : Evenhanded getVarint :=
  (getVarintRounds_evenhanded _ _ _).bind fun _ => .pure _

theorem getVarintBytes_evenhanded : Evenhanded getVarintBytes :=
  getVarint_evenhanded.bind fun _ =>
    .either (.pure _)
      ((lenFrom_evenhanded _).bind fun n => (takeBytes_evenhanded n).bind fun _ => .pure _)

theorem parseUtf8_evenhanded (bytes : Bytes) : Evenhanded (parseUtf8 bytes) := by
  unfold parseUtf8
  split
  · exact .pure _
  · exact .throw _

theorem notNull_evenhanded (value : Option α) : Evenhanded (notNull value) := by
  cases value with
  | none => exact .throw _
  | some value => exact .pure _

theorem getHeader_evenhanded : Evenhanded getHeader :=
  getVarintBytes_evenhanded.bind fun _ => (notNull_evenhanded _).bind fun _ =>
    (parseUtf8_evenhanded _).bind fun _ => getVarintBytes_evenhanded.bind fun _ => .pure _

theorem push_evenhanded (elem : Nat) (items : Vec α) (value : α) :
    Evenhanded (push elem items value) := by
  have hgrow : Evenhanded (growFor elem items) :=
    .either (.pure _) ((Evenhanded.draw _).bind fun _ => .pure _)
  have hrest : ∀ grown : Vec α, Evenhanded (do
      Decoder.draw (Ledger.charge .item)
      pure { grown with items := grown.items ++ [value] } : Decode (Vec α)) :=
    fun grown => (Evenhanded.draw _).bind fun _ => .pure _
  exact .either (hgrow.bind hrest) ((Evenhanded.pure items).bind hrest)

theorem progressing_evenhanded {item : Decode α} (h : Evenhanded item) :
    Evenhanded (progressing item) :=
  Evenhanded.remaining.bind fun _ => h.bind fun _ => Evenhanded.remaining.bind fun _ =>
    (failIf_evenhanded _ _).bind fun _ => .pure _

theorem getItems_evenhanded (elem : Nat) {item : Decode α} (h : Evenhanded item) (count : Nat)
    (items : Vec α) : Evenhanded (getItems elem item count items) := by
  induction count generalizing items with
  | zero => exact .pure _
  | succ count ih => exact h.bind fun _ => (push_evenhanded _ _ _).bind fun _ => ih _

theorem drained_evenhanded : Evenhanded drained :=
  Evenhanded.remaining.bind fun _ => failIf_evenhanded _ _

theorem Record.decodeBody_evenhanded : Evenhanded Record.decodeBody := by
  refine Evenhanded.remaining.bind fun _ => (failIf_evenhanded _ _).bind fun _ => ?_
  refine ((rawFixed_evenhanded 1).bind fun _ => .pure _).bind fun _ => ?_
  refine getVarint_evenhanded.bind fun _ => getVarint_evenhanded.bind fun _ => ?_
  refine (failIf_evenhanded _ _).bind fun _ => getVarintBytes_evenhanded.bind fun _ => ?_
  refine getVarintBytes_evenhanded.bind fun _ => getVarint_evenhanded.bind fun _ => ?_
  refine (failIf_evenhanded _ _).bind fun _ => ?_
  refine (getItems_evenhanded _ (progressing_evenhanded getHeader_evenhanded) _ _).bind fun _ => ?_
  exact drained_evenhanded.bind fun _ => .pure _

theorem Record.decode_evenhanded : Evenhanded Record.decode :=
  getVarint_evenhanded.bind fun _ => (lenFrom_evenhanded _).bind fun n =>
    (takeBytes_evenhanded n).bind fun body => Record.decodeBody_evenhanded.within body

theorem RecordBatch.decodeBody_evenhanded (baseOffset : Int64) (epoch : Int32) :
    Evenhanded (RecordBatch.decodeBody baseOffset epoch) := by
  have hfixed := fun width => rawFixed_evenhanded width
  refine ((hfixed 2).bind fun _ => .pure _).bind fun _ => ?_
  refine ((hfixed 4).bind fun _ => .pure _).bind fun _ => ?_
  refine ((hfixed 8).bind fun _ => .pure _).bind fun _ => ?_
  refine ((hfixed 8).bind fun _ => .pure _).bind fun _ => ?_
  refine ((hfixed 8).bind fun _ => .pure _).bind fun _ => ?_
  refine ((hfixed 2).bind fun _ => .pure _).bind fun _ => ?_
  refine ((hfixed 4).bind fun _ => .pure _).bind fun _ => ?_
  refine ((hfixed 4).bind fun _ => .pure _).bind fun _ => ?_
  refine (failIf_evenhanded _ _).bind fun _ => .either ?_ ?_
  · refine (getItems_evenhanded _ (progressing_evenhanded Record.decode_evenhanded) _ _).bind
      fun _ => drained_evenhanded.bind fun _ => ?_
    exact (Evenhanded.pure _).bind fun _ => .pure _
  · refine Evenhanded.remaining.bind fun n => (Evenhanded.split _ n).bind fun _ => ?_
    exact (Evenhanded.pure _).bind fun _ => .pure _

end Evenhanded

section Frames

variable {batch other : RecordBatch} {frame : Bytes}

theorem putI64_inj {value other : Int64} (h : putI64 value = putI64 other) : value = other := by
  have hraw := congrArg ofBigEndian h
  rw [putI64, putI64, ofBigEndian_toBigEndian, ofBigEndian_toBigEndian,
    Nat.mod_eq_of_lt (b := 256 ^ 8) value.toBitVec.isLt,
    Nat.mod_eq_of_lt (b := 256 ^ 8) other.toBitVec.isLt] at hraw
  exact Int64.toBitVec_inj.mp (BitVec.eq_of_toNat_eq hraw)

theorem putI32_inj {value other : Int32} (h : putI32 value = putI32 other) : value = other := by
  have hraw := congrArg ofBigEndian h
  rw [putI32, putI32, ofBigEndian_toBigEndian, ofBigEndian_toBigEndian,
    Nat.mod_eq_of_lt (b := 256 ^ 4) value.toBitVec.isLt,
    Nat.mod_eq_of_lt (b := 256 ^ 4) other.toBitVec.isLt] at hraw
  exact Int32.toBitVec_inj.mp (BitVec.eq_of_toNat_eq hraw)

/-- Some run read the batch from the frame. -/
def ReadFrom (batch : RecordBatch) (frame : Bytes) : Prop :=
  ∃ s t, s.bytes = frame ++ t.bytes ∧ RecordBatch.decode s = .ok batch t

/-- A frame is read as one batch only, whatever was behind it and whatever was granted. -/
theorem ReadFrom.unique (h : ReadFrom batch frame) (hother : ReadFrom other frame) :
    batch = other := by
  obtain ⟨s, t, hs, hread⟩ := h
  obtain ⟨s', t', hs', hread'⟩ := hother
  obtain ⟨offset, epoch, body, u, v, hbytes, _, hbody, hinner⟩ := RecordBatch.decode_frame hread
  obtain ⟨offset', epoch', body', u', v', hbytes', _, hbody', hinner'⟩ :=
    RecordBatch.decode_frame hread'
  rw [hs] at hbytes
  rw [hs'] at hbytes'
  simp only [← List.append_assoc] at hbytes hbytes'
  have hsame := (List.append_cancel_right hbytes).symm.trans (List.append_cancel_right hbytes')
  simp only [List.append_assoc] at hsame
  obtain ⟨hoffset, hsame⟩ := List.append_inj hsame (by simp [putI64])
  obtain ⟨_, hsame⟩ := List.append_inj hsame (by simp [putI32])
  obtain ⟨hepoch, hsame⟩ := List.append_inj hsame (by simp [putI32])
  obtain ⟨_, hsame⟩ := List.append_inj hsame rfl
  obtain ⟨_, rfl⟩ := List.append_inj hsame (by simp [putU32])
  obtain rfl := putI64_inj hoffset
  obtain rfl := putI32_inj hepoch
  exact (RecordBatch.decodeBody_evenhanded offset epoch (hbody.trans hbody'.symm) hinner hinner').1

theorem ReadFrom.unique_all {batches others : List RecordBatch} {frames : List Bytes}
    (h : List.Forall₂ ReadFrom batches frames) (hothers : List.Forall₂ ReadFrom others frames) :
    batches = others := by
  induction h generalizing others with
  | nil =>
      cases hothers
      rfl
  | cons hfirst _ ih =>
      cases hothers with
      | cons hother hrest => rw [hfirst.unique hother, ih hrest]

theorem decodeSetRounds_read (rounds : Nat) {read vec : Vec RecordBatch} {s t : Reader Ledger}
    (h : decodeSetRounds rounds read s = .ok vec t) :
    ∃ batches, vec.items = read.items ++ batches ∧
      List.Forall₂ ReadFrom batches (wholeBatches rounds s.bytes) := by
  induction rounds generalizing read s with
  | zero => cases h
  | succ rounds ih =>
      by_cases hfragment : Fragment s.bytes
      · rw [decodeSetRounds_fragment hfragment] at h
        cases h
        refine ⟨[], (List.append_nil _).symm, ?_⟩
        rw [hfragment.wholeBatches]
        exact .nil
      · obtain ⟨hlong, hnot⟩ := not_or.mp hfragment
        by_cases hneg : batchLength s.bytes < 0
        · rw [decodeSetRounds_refused (Nat.le_of_not_lt hlong) hneg] at h
          cases h
        · have hwhole := not_and.mp hnot (Int.not_lt.mp hneg)
          rw [decodeSetRounds_whole (Nat.le_of_not_lt hlong) (Int.not_lt.mp hneg)
            (Int.not_lt.mp hwhole)] at h
          obtain ⟨batch, u, hbatch, h₁⟩ := bind_eq_ok.mp h
          obtain ⟨pushed, v, hpush, h₂⟩ := bind_eq_ok.mp h₁
          obtain ⟨hitems, hbytes⟩ := push_items hpush
          obtain ⟨frame, hframe, hof⟩ := RecordBatch.decode_ok hbatch
          obtain ⟨batches, hvec, hall⟩ := ih h₂
          refine ⟨batch :: batches, ?_, ?_⟩
          · rw [hvec, hitems, List.append_assoc, List.singleton_append]
          · rw [hframe, hof.wholeBatches, ← hbytes]
            exact .cons ⟨s, u, hframe, hbatch⟩ hall

end Frames

section Sets

variable {limits limits' together : Limits} {front back left left' rest : Bytes}
  {batches others both : List RecordBatch}

/-- A set decodes as its whole batches do, one by one. -/
theorem decodeSet_read (h : runDecode limits decodeSet front = .ok (batches, left)) :
    List.Forall₂ ReadFrom batches (wholeBatches front.length front) := by
  obtain ⟨frames, tail, hbytes, htail, hall, hframes⟩ := decodeSet_frames h
  unfold runDecode at h
  cases hrun : decodeSet ⟨front, { budget := limits.budget front.length, decoded := 0 }⟩ with
  | error e t =>
      rw [hrun] at h
      cases h
  | ok found t =>
      rw [hrun] at h
      cases h
      obtain ⟨n, u, hremaining, hrest⟩ := bind_eq_ok.mp hrun
      cases hremaining
      obtain ⟨vec, v, hrounds, hpure⟩ := bind_eq_ok.mp hrest
      cases hpure
      obtain ⟨batches, hitems, hread⟩ := decodeSetRounds_read _ hrounds
      have hmore : wholeBatches (front.length + 1) front = frames := by
        have hcount := length_le_flatten hall
        have hlength := congrArg List.length hbytes
        rw [List.length_append] at hlength
        rw [hbytes]
        exact wholeBatches_flatten hall htail _ (by simp only [List.length_append]; omega)
      rw [hframes, ← hmore, show vec.items = batches from hitems]
      exact hread

theorem wholeBatches_append (h : runDecode limits decodeSet front = .ok (batches, left))
    (hother : runDecode limits' decodeSet back = .ok (others, left'))
    (hwhole : (wholeBatches front.length front).flatten = front) :
    wholeBatches (front ++ back).length (front ++ back) =
      wholeBatches front.length front ++ wholeBatches back.length back := by
  obtain ⟨frames, _, _, _, hall, hframes⟩ := decodeSet_frames h
  obtain ⟨frames', tail, hback, htail, hall', hframes'⟩ := decodeSet_frames hother
  rw [hframes] at hwhole
  have hbytes : front ++ back = (frames ++ frames').flatten ++ tail := by
    rw [List.flatten_append, List.append_assoc, ← hback, hwhole]
  have hboth := List.rel_append hall hall'
  rw [hframes, hframes', hbytes]
  refine wholeBatches_flatten hboth htail _ ?_
  exact Nat.le_trans (length_le_flatten hboth) (List.prefix_append _ tail).length_le

/-- Behind whole batches a set is read as it is read alone. -/
theorem decodeSet_append (h : runDecode limits decodeSet front = .ok (batches, left))
    (hother : runDecode limits' decodeSet back = .ok (others, left'))
    (hwhole : (wholeBatches front.length front).flatten = front)
    (hboth : runDecode together decodeSet (front ++ back) = .ok (both, rest)) :
    both = batches ++ others := by
  have hread := decodeSet_read hboth
  rw [wholeBatches_append h hother hwhole] at hread
  exact ReadFrom.unique_all hread (List.rel_append (decodeSet_read h) (decodeSet_read hother))

end Sets

end Odradek.Protocol
