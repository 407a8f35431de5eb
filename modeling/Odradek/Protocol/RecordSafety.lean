import Odradek.Protocol.Reencoding
import Odradek.Protocol.WireSafety

/-!
The record-set decoder on any bytes. A batch is read with getters that panic on a
short buffer: its length has been checked before, so none of them does. A batch
pays for its records, and a record for its headers, with the bytes they came in,
so that no more of them are counted than there are bytes.
-/

namespace Odradek.Protocol

open Library Library.Decoder

section Rules

variable {α β : Type} {R : Reader Ledger → Reader Ledger → Prop} {P Q : Reader Ledger → Prop}
  {d : Decode α} {n : Nat}

abbrev PanicFree (R : Reader Ledger → Reader Ledger → Prop) (P : Reader Ledger → Prop)
    (d : Decode α) : Prop :=
  BoundedOn (· = Halt.panic) R P d

theorem PanicFree.mono (h : PanicFree R Q d) (hP : ∀ s, P s → Q s) : PanicFree R P d :=
  fun s hs => h s (hP s hs)

theorem PanicFree.of_to (h : ∀ n, BoundedTo (· = Halt.panic) R n d) : PanicFree R P d :=
  fun s _ => h s.bytes.length s (Nat.le_refl _)

theorem error_ne_panic (e : DecodeError) : Halt.error e ≠ Halt.panic := by
  intro h
  cases h

/-- After a length check the bytes are there. -/
theorem ensure_then {f : Unit → Decode β} (hrefl : ∀ s, R s s)
    (hf : PanicFree R (fun s => n ≤ s.bytes.length) (f ())) : PanicFree R P (ensure n >>= f) := by
  intro s _
  by_cases h : n ≤ s.bytes.length
  · rw [bind_apply, ensure_apply h]
    exact hf s h
  · have hshort : ensure n s = .error (.error (.truncated (n - s.bytes.length))) s := by
      simp only [ensure, bind_apply, remaining, failIf, if_pos (Nat.lt_of_not_le h)]
      rfl
    rw [bind_apply, hshort]
    exact ⟨error_ne_panic _, hrefl s⟩

theorem failIf_then {c : Prop} [Decidable c] {e : DecodeError} {f : Unit → Decode β}
    (hrefl : ∀ s, R s s) (hf : ¬ c → PanicFree R P (f ())) : PanicFree R P (failIf c e >>= f) := by
  intro s hs
  by_cases h : c
  · rw [bind_apply, failIf, if_pos h]
    exact ⟨error_ne_panic _, hrefl s⟩
  · rw [bind_apply, failIf, if_neg h]
    exact hf h s hs

theorem lenFrom_then {raw : Int} {g : Nat → Decode β} (hrefl : ∀ s, R s s)
    (hg : ∀ len, PanicFree R P (g len)) : PanicFree R P (lenFrom raw >>= g) := by
  intro s hs
  by_cases h : raw < 0
  · rw [bind_apply, lenFrom, if_pos h]
    exact ⟨error_ne_panic _, hrefl s⟩
  · rw [bind_apply, lenFrom, if_neg h]
    exact hg raw.toNat s hs

theorem remaining_then {g : Nat → Decode β}
    (hg : ∀ left, PanicFree R (fun s => P s ∧ s.bytes.length = left) (g left)) :
    PanicFree R P (remaining >>= g) :=
  fun s hs => hg s.bytes.length s ⟨hs, rfl⟩

end Rules

section Raw

abbrev Unchecked {α : Type} (w : Nat) (d : Decode α) : Prop := Takes (· = Halt.panic) w d

theorem rawFixed_takes (width : Nat) : Unchecked width (rawFixed width) :=
  (Takes.split _ width).map _

theorem rawI8_takes : Unchecked 1 rawI8 := (rawFixed_takes 1).map _

theorem rawI16_takes : Unchecked 2 rawI16 := (rawFixed_takes 2).map _

theorem rawI32_takes : Unchecked 4 rawI32 := (rawFixed_takes 4).map _

theorem rawU32_takes : Unchecked 4 rawU32 := (rawFixed_takes 4).map _

theorem rawI64_takes : Unchecked 8 rawI64 := (rawFixed_takes 8).map _

end Raw

section Records

variable {n : Nat}

theorem drained_safe : Safe drained :=
  Frugal.bind .remaining fun _ => safe_failIf _ _

theorem getVarint_safe : Safe getVarint :=
  Frugal.bind getUnsignedVarint_safe fun _ => .pure _

theorem getVarint_consumes : Consumes getVarint :=
  getUnsignedVarint_consumes.bind_left fun _ _ _ _ h => by
    cases h
    exact Nat.le_refl _

theorem getVarintBytes_safe : Safe getVarintBytes :=
  marked_safe getVarint_safe (fun _ => lenFrom_safe _) takeBytes_safe

theorem getHeader_safe : Safe getHeader :=
  Frugal.bind getVarintBytes_safe fun key => Frugal.bind (notNull_safe key) fun key =>
    Frugal.bind (parseUtf8_safe key) fun _ => Frugal.bind getVarintBytes_safe fun _ => .pure _

theorem keeps_refl (s : Reader Ledger) : Keeps Ledger.decoded s s :=
  ⟨Nat.le_refl _, Nat.le_refl _⟩

/-- The fields of a record after its attributes. -/
theorem headers_breakEven (count : Nat) : BreaksEvenTo n
    (getItems recordHeaderSize (progressing getHeader) count (Vec.new recordHeaderSize)) :=
  getItems_breaksEven _ count (progressing_safe getHeader_safe.upTo) (progressing_consumes _) _

theorem Record.decodeBody_breaksEven {P : Reader Ledger → Prop} :
    PanicFree (Keeps Ledger.decoded) P Record.decodeBody := by
  refine remaining_then fun left => failIf_then keeps_refl fun hleft => ?_
  refine PanicFree.mono (Q := fun s => 1 + 0 ≤ s.bytes.length) ?_
    fun s hs => by have := hs.2; omega
  refine rawI8_takes.bind fun attributes => PanicFree.of_to fun n => ?_
  refine ThriftyTo.bind getVarint_safe.upTo.thrifty fun timestampDelta => ?_
  refine ThriftyTo.bind getVarint_safe.upTo.thrifty fun offsetDelta => ?_
  refine ThriftyTo.bind (safe_failIf _ _).upTo.thrifty fun _ => ?_
  refine ThriftyTo.bind getVarintBytes_safe.upTo.thrifty fun key => ?_
  refine ThriftyTo.bind getVarintBytes_safe.upTo.thrifty fun value => ?_
  refine ThriftyTo.bind getVarint_safe.upTo.thrifty fun headerCount => ?_
  refine ThriftyTo.bind (safe_failIf _ _).upTo.thrifty fun _ => ?_
  refine ThriftyTo.bind (headers_breakEven _) fun headers => ?_
  exact ThriftyTo.bind drained_safe.upTo.thrifty fun _ => (Frugal.pure _).upTo.thrifty

/-- What a length says, read and decoded on its own. -/
theorem takeBytes_within {α : Type} {P : Reader Ledger → Prop} {d : Decode α} (len : Nat)
    (hd : ∀ {Q}, PanicFree (Keeps Ledger.decoded) Q d) :
    PanicFree (Keeps Ledger.decoded) P (takeBytes len >>= fun body => within body d) := by
  have hsplit : (takeBytes len >>= fun body => within body d) =
      ensure len >>= fun _ => copyToBytes len >>= fun body => within body d := by
    simp only [takeBytes, bind_assoc]
  rw [hsplit]
  refine ensure_then keeps_refl (split_then _ fun body hbody => ?_)
  rw [← hbody]
  exact BoundedOn.within hd

theorem Record.decode_safe : SafeTo n Record.decode := by
  refine FrugalTo.bind_shorter getVarint_safe.upTo getVarint_consumes fun length m _ => ?_
  exact ThriftyTo.bind (lenFrom_safe _).upTo.thrifty fun len =>
    takeBytes_within len Record.decodeBody_breaksEven

end Records

section Batches

variable {n : Nat}

theorem copyRest_safe : Safe (remaining >>= copyToBytes) := by
  intro s
  have hall : copyToBytes s.bytes.length s = .ok (s.bytes.take s.bytes.length)
      { s with bytes := s.bytes.drop s.bytes.length } := if_pos (Nat.le_refl _)
  rw [bind_apply]
  simp only [remaining, hall, Spends, List.length_drop, Nat.sub_self]
  by_cases hempty : s.bytes.length = 0
  · exact .inl ⟨hempty.symm, trivial⟩
  · exact .inr (by omega)

theorem copyRest_then {α : Type} {f : Bytes → Decode α} (hf : ∀ payload, Safe (f payload)) :
    Safe (remaining >>= fun left => copyToBytes left >>= f) := by
  have hsplit : (remaining >>= fun left => copyToBytes left >>= f) =
      (remaining >>= copyToBytes) >>= f := (bind_assoc _ _ _).symm
  rw [hsplit]
  exact Frugal.bind copyRest_safe hf

theorem records_breakEven (count : Nat) : BreaksEvenTo n
    (getItems recordSize (progressing Record.decode) count (Vec.new recordSize)) :=
  getItems_breaksEven _ count (progressing_safe Record.decode_safe) (progressing_consumes _) _

/-- The fixed fields take forty bytes. -/
theorem RecordBatch.decodeBody_breaksEven (baseOffset : Int64) (epoch : Int32) :
    PanicFree (Keeps Ledger.decoded) (fun s => 40 ≤ s.bytes.length)
      (RecordBatch.decodeBody baseOffset epoch) := by
  refine PanicFree.mono (Q := fun s => 2 + (4 + (8 + (8 + (8 + (2 + (4 + (4 + 0))))))) ≤
    s.bytes.length) ?_ fun s hs => hs
  refine rawI16_takes.bind fun attributes => rawI32_takes.bind fun lastOffsetDelta =>
    rawI64_takes.bind fun baseTimestamp => rawI64_takes.bind fun maxTimestamp =>
    rawI64_takes.bind fun producerId => rawI16_takes.bind fun producerEpoch =>
    rawI32_takes.bind fun baseSequence => rawI32_takes.bind fun count => PanicFree.of_to fun n => ?_
  refine ThriftyTo.bind (safe_failIf _ _).upTo.thrifty fun _ => ?_
  split
  · exact ThriftyTo.bind (records_breakEven _) fun read =>
      ThriftyTo.bind drained_safe.upTo.thrifty fun _ => (Frugal.pure _).upTo.thrifty
  · exact (copyRest_then fun payload => .pure _).upTo.thrifty

/-- The length of a batch covers what its unchecked reads take. -/
theorem RecordBatch.decode_safe : Safe RecordBatch.decode := by
  suffices h : PanicFree (Spends Ledger.decoded) (fun _ => True) RecordBatch.decode from
    fun s => h s trivial
  refine ensure_then Spends.refl (PanicFree.mono (Q := fun s => 8 + 4 ≤ s.bytes.length) ?_
    fun s hs => hs)
  refine rawI64_takes.bind_pos (by decide) fun baseOffset => ?_
  refine PanicFree.mono (Q := fun s => 4 + 0 ≤ s.bytes.length) ?_ fun s hs => hs
  refine rawI32_takes.bind fun rawLength => lenFrom_then keeps_refl fun batchLength =>
    failIf_then keeps_refl fun hlong => ensure_then keeps_refl ?_
  have hsum : 4 + (1 + (4 + (batchLength - 9))) = batchLength := by
    unfold batchOverhead at hlong
    omega
  refine PanicFree.mono (Q := fun s => 4 + (1 + (4 + (batchLength - 9))) ≤ s.bytes.length) ?_
    fun s hs => by rw [hsum]; exact hs
  refine rawI32_takes.bind fun epoch => rawI8_takes.bind fun found =>
    failIf_then keeps_refl fun _ => rawU32_takes.bind fun crc => split_then _ fun body hbody => ?_
  refine failIf_then (Adds.refl _) fun _ => ?_
  rw [← hbody]
  refine BoundedOn.within (PanicFree.mono (RecordBatch.decodeBody_breaksEven baseOffset epoch)
    fun s hs => ?_)
  unfold batchOverhead at hlong
  rw [hs, hbody]
  omega

theorem RecordBatch.decode_consumes : Consumes RecordBatch.decode := by
  intro s batch t h
  obtain ⟨frame, hframe, hof⟩ := RecordBatch.decode_ok h
  have hlen := hof.length_le
  rw [hframe, List.length_append]
  omega

end Batches

section Sets

variable {n : Nat} {s t : Reader Ledger}

/-- A turn that reads a batch leaves fewer bytes to the rounds after it. -/
theorem decodeSetTurn_breaksEven {rounds : Nat} {read : Vec RecordBatch}
    (hrest : ∀ m < n, ∀ read, BreaksEvenTo m (decodeSetRounds rounds read)) :
    BreaksEvenTo n (decodeSetTurn rounds read) := by
  have hcounted : BreaksEvenTo n
      (RecordBatch.decode >>= fun batch => push recordBatchSize read batch) :=
    ThriftyTo.counted RecordBatch.decode_safe.upTo RecordBatch.decode_consumes
      fun batch m => push_adds _ read batch
  have hconsumes : Consumes
      (RecordBatch.decode >>= fun batch => push recordBatchSize read batch) :=
    RecordBatch.decode_consumes.bind_left fun batch s pushed t h =>
      Nat.le_of_eq (congrArg List.length (push_items h).2)
  have hsplit : decodeSetTurn rounds read =
      (RecordBatch.decode >>= fun batch => push recordBatchSize read batch) >>=
        decodeSetRounds rounds := by
    simp only [decodeSetTurn, bind_assoc]
  rw [hsplit]
  refine BoundedTo.bind_of (Q := fun _ => Keeps Ledger.decoded) hcounted (fun _ _ h => h)
    fun s read t hs hrun h => ?_
  have hlt := hconsumes s read t hrun
  exact ⟨hrest _ (Nat.lt_of_lt_of_le hlt hs) read, fun u => h.trans⟩

/-- By induction on the rounds: there are more of them than bytes, so they do not
run out. -/
theorem decodeSetRounds_breaksEven (rounds : Nat) (h : n < rounds) (read : Vec RecordBatch) :
    BreaksEvenTo n (decodeSetRounds rounds read) := by
  induction rounds generalizing n read with
  | zero => exact absurd h (Nat.not_lt_zero n)
  | succ rounds ih =>
      intro s hs
      by_cases hfragment : Fragment s.bytes
      · rw [decodeSetRounds_fragment hfragment]
        simp only [Keeps, List.length_nil]
        omega
      · obtain ⟨hlong, hnot⟩ := not_or.mp hfragment
        by_cases hneg : batchLength s.bytes < 0
        · rw [decodeSetRounds_refused (Nat.le_of_not_lt hlong) hneg]
          exact ⟨error_ne_panic _, keeps_refl s⟩
        · have hwhole := not_and.mp hnot (Int.not_lt.mp hneg)
          rw [decodeSetRounds_whole (Nat.le_of_not_lt hlong) (Int.not_lt.mp hneg)
            (Int.not_lt.mp hwhole)]
          exact decodeSetTurn_breaksEven (fun m hm read => ih (by omega) read) s hs

theorem decodeSet_breaksEven (n : Nat) : BreaksEvenTo n decodeSet := by
  intro s hs
  exact ThriftyTo.bind (decodeSetRounds_breaksEven _ (Nat.lt_succ_self _) (Vec.new recordBatchSize))
    (fun read => (Frugal.pure read.items).upTo.thrifty) s (Nat.le_refl _)

/-- On any bytes: no unchecked read runs short and no loop spins, and batches,
records and headers together are no more than bytes. Nothing is left behind. -/
theorem decodeSet_safe (s : Reader Ledger) :
    (∀ batches t, decodeSet s = .ok batches t →
      t.bytes = [] ∧ t.state.decoded ≤ s.bytes.length + s.state.decoded) ∧
    ∀ e t, decodeSet s = .error e t →
      e ≠ .panic ∧ t.bytes.length + t.state.decoded ≤ s.bytes.length + s.state.decoded := by
  have hrun := decodeSet_breaksEven _ s (Nat.le_refl _)
  refine ⟨fun batches t hok => ?_, fun e t herror => ?_⟩
  · rw [hok] at hrun
    obtain ⟨left, u, hleft, hrounds⟩ := bind_eq_ok.mp hok
    obtain ⟨read, v, hrounds, hpure⟩ := bind_eq_ok.mp hrounds
    cases hpure
    obtain ⟨_, _, _, _, _, _, _, hnil⟩ := decodeSetRounds_ok left.succ hrounds
    refine ⟨hnil, ?_⟩
    have hkeeps := hrun.2
    rw [hnil, List.length_nil] at hkeeps
    omega
  · rw [herror] at hrun
    exact ⟨hrun.1, hrun.2.2⟩

end Sets

end Odradek.Protocol
