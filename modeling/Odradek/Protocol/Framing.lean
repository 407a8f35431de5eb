import Mathlib.Data.List.Forall2
import Odradek.Library.Reassembly
import Odradek.Protocol.Header
import Odradek.Protocol.WireRoundTrip

/-!
The frame envelope on a stream (`frame.rs`). `frame` writes into a buffer that
outlives it and takes back a frame it cannot finish; `try_split` takes frames
off a buffer that fills as bytes arrive. What was framed comes out at every
chunking, and so does the error of a length prefix that is out of bounds.
-/

namespace Odradek.Protocol

open Library Library.Reassembly

/-- `impl FnOnce(&mut BytesMut) -> Result<(), EncodeError>` of an encoder: it
only appends, also where it fails. -/
structure Payload where
  write : Bytes → Except EncodeError Unit × Bytes
  appends : ∀ buf, ∃ written, (write buf).2 = buf ++ written

def Payload.slice (bytes : Bytes) : Payload :=
  { write := fun buf => (.ok (), buf ++ bytes), appends := fun _ => ⟨bytes, rfl⟩ }

def frameInPlace (buf : Bytes) (start : Nat) (payload : Payload) :
    Except EncodeError Unit × Bytes :=
  match payload.write (buf ++ putI32 0) with
  | (.error e, buf) => (.error e, buf)
  | (.ok (), buf) =>
    let len := buf.length - start - 4
    if i32Max < len then (.error (.tooLong len i32Max), buf)
    else (.ok (), buf.take start ++ (putI32 (Int32.ofNat len) ++ buf.drop (start + 4)))

/-- `frame`, into the caller's buffer. -/
def frameOnto (buf : Bytes) (payload : Payload) : Except EncodeError Unit × Bytes :=
  match frameInPlace buf buf.length payload with
  | (.ok (), buf) => (.ok (), buf)
  | (.error e, framed) => (.error e, framed.take buf.length)

/-- A `frame` call for each payload, up to the first that fails. -/
def framesOnto : Bytes → List Payload → Except EncodeError Unit × Bytes
  | buf, [] => (.ok (), buf)
  | buf, payload :: payloads =>
    match frameOnto buf payload with
    | (.ok (), buf) => framesOnto buf payloads
    | (.error e, buf) => (.error e, buf)

/-- `i32::from_be_bytes`. -/
def prefixValue (bytes : Bytes) : Int32 := Int32.ofBitVec (BitVec.ofNat 32 (ofBigEndian bytes))

def checkLen (bytes : Bytes) (maxLen : Nat) : Except DecodeError Nat :=
  let len := (prefixValue bytes).toInt
  if len < 0 then .error (.invalidLength len)
  else if maxLen < len.toNat then .error (.invalidLength len)
  else .ok len.toNat

/-- `try_split`: the payload and what is left of the buffer, which otherwise
stays as it is. -/
def trySplit (maxLen : Nat) (buf : Bytes) : Except DecodeError (Option (Bytes × Bytes)) :=
  if buf.length < 4 then .ok none
  else
    match checkLen (buf.take 4) maxLen with
    | .error e => .error e
    | .ok len =>
      if buf.length < 4 + len then .ok none
      else .ok (some ((buf.drop 4).take len, (buf.drop 4).drop len))

/-- The encoder writes these bytes, wherever it writes them. -/
def Payload.Writes (payload : Payload) (bytes : Bytes) : Prop :=
  ∀ buf, payload.write buf = (.ok (), buf ++ bytes)

def frameBytes (payload : Bytes) : Bytes := putI32 (Int32.ofNat payload.length) ++ payload

section Writing

variable {buf out : Bytes} {payload : Payload}

theorem length_putI32 (value : Int32) : (putI32 value).length = 4 := length_toBigEndian 4 _

/-- A frame is whole behind what was there, or there is nothing behind it. -/
theorem frameOnto_cases (buf : Bytes) (payload : Payload) :
    (∃ written, (payload.write (buf ++ putI32 0)) = (.ok (), buf ++ putI32 0 ++ written) ∧
      written.length ≤ i32Max ∧ frameOnto buf payload = (.ok (), buf ++ frameBytes written)) ∨
    ∃ e, frameOnto buf payload = (.error e, buf) ∧
      ∀ written, payload.write (buf ++ putI32 0) = (.ok (), buf ++ putI32 0 ++ written) →
        i32Max < written.length := by
  obtain ⟨written, hwritten⟩ := payload.appends (buf ++ putI32 0)
  have htake : (buf ++ putI32 0 ++ written).take buf.length = buf := by
    rw [List.append_assoc, List.take_left']
    rfl
  have hdrop : (buf ++ putI32 0 ++ written).drop (buf.length + 4) = written := by
    rw [List.drop_left']
    rw [List.length_append, length_putI32]
  have hlen : (buf ++ putI32 0 ++ written).length - buf.length - 4 = written.length := by
    simp only [List.length_append, length_putI32]
    omega
  unfold frameOnto frameInPlace
  cases hwrite : payload.write (buf ++ putI32 0) with
  | mk result left =>
      rw [hwrite] at hwritten
      simp only at hwritten
      subst hwritten
      cases result with
      | error e => exact .inr ⟨e, by simp only [htake], fun _ hok => (by cases hok)⟩
      | ok u =>
          simp only [hlen, htake, hdrop]
          by_cases hlong : i32Max < written.length
          · simp only [if_pos hlong, htake]
            refine .inr ⟨_, rfl, fun other hok => ?_⟩
            simp only [Prod.mk.injEq, List.append_cancel_left_eq, true_and] at hok
            rwa [← hok]
          · simp only [if_neg hlong]
            exact .inl ⟨written, rfl, Nat.le_of_not_lt hlong, rfl⟩

/-- A frame that fails leaves nothing behind. -/
theorem frameOnto_error {e : EncodeError} (h : frameOnto buf payload = (.error e, out)) :
    out = buf := by
  obtain ⟨written, _, _, hok⟩ | ⟨e', herr, _⟩ := frameOnto_cases buf payload
  · cases hok.symm.trans h
  · cases herr.symm.trans h
    rfl

theorem frameOnto_eq {bytes : Bytes} (buf : Bytes) (hwrites : payload.Writes bytes) :
    (bytes.length ≤ i32Max → frameOnto buf payload = (.ok (), buf ++ frameBytes bytes)) ∧
      (i32Max < bytes.length → ∃ e, frameOnto buf payload = (.error e, buf)) := by
  obtain ⟨written, hwrite, hlen, hok⟩ | ⟨e, herr, hlong⟩ := frameOnto_cases buf payload
  · have hsame := (hwrites _).symm.trans hwrite
    simp only [Prod.mk.injEq, List.append_cancel_left_eq, true_and] at hsame
    subst hsame
    exact ⟨fun _ => hok, fun h => absurd h (Nat.not_lt.mpr hlen)⟩
  · exact ⟨fun h => absurd (hlong _ (hwrites _)) (Nat.not_lt.mpr h), fun _ => ⟨e, herr⟩⟩

theorem frameOnto_writes {bytes : Bytes} (hwrites : payload.Writes bytes)
    (h : frameOnto buf payload = (.ok (), out)) :
    bytes.length ≤ i32Max ∧ out = buf ++ frameBytes bytes := by
  obtain ⟨hok, herr⟩ := frameOnto_eq buf hwrites
  by_cases hlen : bytes.length ≤ i32Max
  · cases (hok hlen).symm.trans h
    exact ⟨hlen, rfl⟩
  · obtain ⟨e, herror⟩ := herr (Nat.lt_of_not_le hlen)
    cases herror.symm.trans h

/-- A frame in a buffer of its own is what a longer buffer gets. -/
theorem frameOnto_frame {bytes f : Bytes} (hwrites : payload.Writes bytes)
    (h : frame (.ok bytes) = .ok f) : frameOnto buf payload = (.ok (), buf ++ f) := by
  have hframe : (if i32Max < bytes.length then .error (.tooLong bytes.length i32Max)
      else .ok (frameBytes bytes) : Except EncodeError Bytes) = .ok f := h
  split at hframe
  · cases hframe
  · cases hframe
    exact (frameOnto_eq buf hwrites).1 (Nat.le_of_not_lt ‹_›)

/-- The frames of payloads that are written stand one behind the other. -/
theorem framesOnto_writes {payloads : List Payload} {contents : List Bytes}
    (hwrites : List.Forall₂ Payload.Writes payloads contents)
    (h : framesOnto buf payloads = (.ok (), out)) :
    (∀ bytes ∈ contents, bytes.length ≤ i32Max) ∧ out = buf ++ contents.flatMap frameBytes := by
  induction hwrites generalizing buf with
  | nil =>
      cases h
      exact ⟨fun _ hmem => (by cases hmem), (List.append_nil _).symm⟩
  | @cons payload bytes payloads contents hfirst hrest ih =>
      rw [framesOnto] at h
      cases hframe : frameOnto buf payload with
      | mk result next =>
          rw [hframe] at h
          cases result with
          | error e => cases h
          | ok u =>
              obtain ⟨hlen, rfl⟩ := frameOnto_writes hfirst hframe
              obtain ⟨hall, hout⟩ := ih h
              refine ⟨?_, by rw [hout, List.flatMap_cons, List.append_assoc]⟩
              intro other hmem
              obtain rfl | hmem := List.mem_cons.mp hmem
              · exact hlen
              · exact hall other hmem

end Writing

section Reading

variable {maxLen : Nat}

theorem prefixValue_putI32 (value : Int32) : prefixValue (putI32 value) = value := by
  have hlt : value.toBitVec.toNat < 256 ^ 4 := value.toBitVec.isLt
  rw [prefixValue, putI32, ofBigEndian_toBigEndian, Nat.mod_eq_of_lt hlt, BitVec.ofNat_toNat,
    BitVec.setWidth_eq]
  rfl

theorem trySplit_eq_some {buf payload rest : Bytes}
    (h : trySplit maxLen buf = .ok (some (payload, rest))) :
    4 ≤ buf.length ∧ ∃ len, checkLen (buf.take 4) maxLen = .ok len ∧ 4 + len ≤ buf.length ∧
      payload = (buf.drop 4).take len ∧ rest = (buf.drop 4).drop len := by
  unfold trySplit at h
  split at h
  · cases h
  · split at h
    · cases h
    · split at h
      · cases h
      · cases h
        exact ⟨Nat.le_of_not_lt ‹_›, _, ‹_›, Nat.le_of_not_lt ‹_›, rfl, rfl⟩

theorem trySplit_eq_error {buf : Bytes} {e : DecodeError} (h : trySplit maxLen buf = .error e) :
    4 ≤ buf.length ∧ checkLen (buf.take 4) maxLen = .error e := by
  unfold trySplit at h
  split at h
  · cases h
  · split at h
    · cases h
      exact ⟨Nat.le_of_not_lt ‹_›, ‹_›⟩
    · split at h <;> cases h

/-- Bytes that arrive later do not change what was decided. -/
theorem trySplit_stable (maxLen : Nat) : Stable (trySplit maxLen) where
  nothing := rfl
  shrinks := by
    intro buf rest payload h
    obtain ⟨hlong, len, _, _, _, rfl⟩ := trySplit_eq_some h
    simp only [List.length_drop]
    omega
  item := by
    intro buf rest payload h more
    obtain ⟨hlong, len, hcheck, hlen, rfl, rfl⟩ := trySplit_eq_some h
    have hdrop : 4 ≤ (buf ++ more).length := by
      rw [List.length_append]
      omega
    rw [trySplit, if_neg (Nat.not_lt.mpr hdrop), List.take_append_of_le_length hlong, hcheck]
    simp only
    rw [if_neg (by rw [List.length_append]; omega), List.drop_append_of_le_length hlong,
      List.take_append_of_le_length (by rw [List.length_drop]; omega),
      List.drop_append_of_le_length (by rw [List.length_drop]; omega)]
  fault := by
    intro buf e h more
    obtain ⟨hlong, hcheck⟩ := trySplit_eq_error h
    have hdrop : 4 ≤ (buf ++ more).length := by
      rw [List.length_append]
      omega
    rw [trySplit, if_neg (Nat.not_lt.mpr hdrop), List.take_append_of_le_length hlong, hcheck]

theorem trySplit_frame {payload : Bytes} (hmax : payload.length ≤ maxLen)
    (hlen : payload.length ≤ i32Max) (rest : Bytes) :
    trySplit maxLen (frameBytes payload ++ rest) = .ok (some (payload, rest)) := by
  obtain ⟨hvalue, _⟩ := int32_ofNat hlen
  have htake : (frameBytes payload ++ rest).take 4 = putI32 (Int32.ofNat payload.length) := by
    rw [frameBytes, List.append_assoc, List.take_left' (length_putI32 _)]
  have hdrop : (frameBytes payload ++ rest).drop 4 = payload ++ rest := by
    rw [frameBytes, List.append_assoc, List.drop_left' (length_putI32 _)]
  have hlong : (frameBytes payload ++ rest).length = 4 + payload.length + rest.length := by
    rw [frameBytes, List.length_append, List.length_append, length_putI32]
  have hcheck : checkLen (putI32 (Int32.ofNat payload.length)) maxLen = .ok payload.length := by
    simp only [checkLen, prefixValue_putI32, hvalue]
    rw [if_neg (by omega), if_neg (by rw [Int.toNat_natCast]; omega), Int.toNat_natCast]
  rw [trySplit, if_neg (by omega), htake, hcheck]
  simp only
  rw [if_neg (by omega), hdrop, List.take_left' rfl, List.drop_left' rfl]

/-- Negative, or over the limit. -/
def BadPrefix (maxLen : Nat) (bytes : Bytes) : Prop :=
  bytes.length = 4 ∧ ((prefixValue bytes).toInt < 0 ∨ (maxLen : Int) < (prefixValue bytes).toInt)

theorem trySplit_bad {bad : Bytes} (h : BadPrefix maxLen bad) (rest : Bytes) :
    trySplit maxLen (bad ++ rest) = .error (.invalidLength (prefixValue bad).toInt) := by
  obtain ⟨hfour, hbad⟩ := h
  have hcheck : checkLen bad maxLen = .error (.invalidLength (prefixValue bad).toInt) := by
    unfold checkLen
    simp only
    by_cases hneg : (prefixValue bad).toInt < 0
    · rw [if_pos hneg]
    · rw [if_neg hneg, if_pos (by omega)]
  rw [trySplit, if_neg (by rw [List.length_append]; omega), List.take_left' hfour, hcheck]

end Reading

/-- What was framed comes out whole at every chunking, a frame that fails
leaves the buffer as it was, and a bad prefix ends the stream at every chunking. -/
theorem frames_reassembled :
    (∀ (maxLen : Nat) (payloads : List Payload) (contents chunks : List Bytes) (stream : Bytes),
      List.Forall₂ Payload.Writes payloads contents →
      (∀ bytes ∈ contents, bytes.length ≤ maxLen) →
      framesOnto [] payloads = (.ok (), stream) → chunks.flatten = stream →
      receive (trySplit maxLen) chunks = ⟨contents, .ok []⟩) ∧
    (∀ (buf out : Bytes) (payload : Payload) (e : EncodeError),
      frameOnto buf payload = (.error e, out) → out = buf) ∧
    ∀ (maxLen : Nat) (payloads : List Payload) (contents chunks : List Bytes)
      (stream bad more : Bytes),
      List.Forall₂ Payload.Writes payloads contents →
      (∀ bytes ∈ contents, bytes.length ≤ maxLen) →
      framesOnto [] payloads = (.ok (), stream) → BadPrefix maxLen bad →
      chunks.flatten = stream ++ (bad ++ more) →
      receive (trySplit maxLen) chunks =
        ⟨contents, .error (.invalidLength (prefixValue bad).toInt)⟩ := by
  have hdrain : ∀ (maxLen : Nat) (payloads : List Payload) (contents : List Bytes)
      (stream tail : Bytes), List.Forall₂ Payload.Writes payloads contents →
      (∀ bytes ∈ contents, bytes.length ≤ maxLen) → framesOnto [] payloads = (.ok (), stream) →
      drain (trySplit maxLen) (stream ++ tail) = (drain (trySplit maxLen) tail).after contents := by
    intro maxLen payloads contents stream tail hwrites hmax hframes
    obtain ⟨hlen, hstream⟩ := framesOnto_writes hwrites hframes
    rw [hstream, List.nil_append]
    exact drain_items (trySplit_stable maxLen) frameBytes contents tail fun bytes hmem rest =>
      trySplit_frame (hmax bytes hmem) (hlen bytes hmem) rest
  refine ⟨?_, fun _ _ _ _ h => frameOnto_error h, ?_⟩
  · intro maxLen payloads contents chunks stream hwrites hmax hframes hchunks
    have hall := hdrain maxLen payloads contents stream [] hwrites hmax hframes
    have hempty : drain (trySplit maxLen) [] = ⟨[], .ok []⟩ := drain_none rfl
    rw [List.append_nil, hempty] at hall
    rw [receive_eq (trySplit_stable maxLen), hchunks, hall, Received.after, List.append_nil]
  · intro maxLen payloads contents chunks stream bad more hwrites hmax hframes hbad hchunks
    have hall := hdrain maxLen payloads contents stream (bad ++ more) hwrites hmax hframes
    rw [drain_fault (trySplit_bad hbad more)] at hall
    rw [receive_eq (trySplit_stable maxLen), hchunks, hall, Received.after, List.append_nil]

/-- An encoder that fails after its first byte. -/
def Payload.halfway : Payload :=
  { write := fun buf => (.error (.tooLong 40000 32767), buf ++ [7]), appends :=
    fun _ => ⟨[7], rfl⟩ }

/-- Two frames of at most two bytes, cut inside both prefixes; a third that fails halfway
behind them; then a length of three where two is the limit. -/
theorem frames_reassembled_two :
    receive (trySplit 2) [[0, 0], [0, 2, 1], [], [2, 0, 0, 0, 0]] = ⟨[[1, 2], []], .ok []⟩ ∧
      framesOnto [] [.slice [1, 2], .halfway, .slice [3]] =
        (.error (.tooLong 40000 32767), [0, 0, 0, 2, 1, 2]) ∧
      (frameOnto [0, 0, 0, 2, 1, 2] .halfway).2 = [0, 0, 0, 2, 1, 2] ∧
      receive (trySplit 2) [[0, 0, 0, 2, 1, 2, 0], [0, 0, 0, 0, 0], [0, 3, 9]] =
        ⟨[[1, 2], []], .error (.invalidLength 3)⟩ := by
  have hwrites : List.Forall₂ Payload.Writes [.slice [1, 2], .slice []] [[1, 2], []] :=
    .cons (fun _ => rfl) (.cons (fun _ => rfl) .nil)
  have hmax : ∀ bytes ∈ [[1, 2], ([] : Bytes)], bytes.length ≤ 2 := by decide
  refine ⟨frames_reassembled.1 2 _ _ _ _ hwrites hmax (by rfl) (by rfl), rfl,
    frames_reassembled.2.1 [0, 0, 0, 2, 1, 2] _ .halfway (.tooLong 40000 32767) rfl,
    frames_reassembled.2.2 2 _ _ _ _ [0, 0, 0, 3] [9] hwrites hmax (by rfl) ⟨rfl, .inr ?_⟩ (by rfl)⟩
  decide

end Odradek.Protocol
