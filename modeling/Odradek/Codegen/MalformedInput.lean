import Odradek.Codegen.DecodeSafety
import Odradek.Protocol.RecordSafety

/-!
What a peer can make of a decoder with bytes of its own choosing. Whatever counts
and lengths the bytes claim, a run on them ends with a value or an error, and has
made no more elements than it read bytes: the run of the record-set decoder, and
that of the emitted decode of any schema at any version.
-/

namespace Odradek.Codegen

open Library Library.Decoder Protocol

variable {α : Type} {d : Decode α} {limits : Limits} {bytes : Bytes}

/-- A run on `bytes` under `limits`: it does not panic, and the elements it made
and the bytes it left are together no more than the bytes it was given. -/
def Tame (limits : Limits) (d : Decode α) (bytes : Bytes) : Prop :=
  match d ⟨bytes, { budget := limits.budget bytes.length, decoded := 0 }⟩ with
  | .ok _ t => t.bytes.length + t.state.decoded ≤ bytes.length
  | .error e t => e ≠ .panic ∧ t.bytes.length + t.state.decoded ≤ bytes.length

theorem Tame.of_breaksEven (h : BreaksEvenTo bytes.length d) : Tame limits d bytes := by
  have hrun := h ⟨bytes, { budget := limits.budget bytes.length, decoded := 0 }⟩ (Nat.le_refl _)
  unfold Tame
  split at hrun
  · rename_i a t hok
    rw [hok]
    exact hrun.2
  · rename_i e t herror
    rw [herror]
    exact ⟨hrun.1, hrun.2.2⟩

/-- No bytes bring a decoder to a panic, or to more elements than bytes; with the
stack that the bytes may need, none runs out of it. -/
theorem decoders_tame :
    (∀ limits bytes, Tame limits decodeSet bytes) ∧
    ∀ parseF64 msg program, generateMessage parseF64 msg = .ok program →
      msg.HasDefaults parseF64 → msg.Resolves → ∀ name, (msg.find name).isSome = true →
      ∀ version sizeOf limits (bytes : Bytes) depth,
        (bytes.length + 1) * (msg.structs.length + 1) ≤ depth →
        Tame limits (program.decode version sizeOf depth name) bytes := by
  refine ⟨fun _ _ => .of_breaksEven (decodeSet_breaksEven _), ?_⟩
  intro parseF64 msg program h hdefaults hresolves name hname version sizeOf limits bytes depth
    hdepth
  rw [Nat.succ_mul] at hdepth
  exact .of_breaksEven (decode_safeTo h hdefaults hresolves depth (default_of_find hdefaults hname)
    (Nat.le_refl _) (by omega)).thrifty

/-- A batch that claims to be shorter than its own header, and an array that claims
four billion elements in a message of seven bytes. -/
theorem decoders_tame_claimed :
    runDecode .default decodeSet (List.replicate 11 0 ++ List.replicate 50 1) =
        .error (.error (.invalidLength 1)) ∧
      Tame .default decodeSet (List.replicate 11 0 ++ List.replicate 50 1) ∧
      runDecode .default (apiVersionsProgram.decode 3 (fun _ => 40) 40 "ApiVersionsResponse")
          [0, 35, 255, 255, 255, 255, 15] = .error (.error (.truncated 2)) ∧
      Tame .default (apiVersionsProgram.decode 3 (fun _ => 40) 40 "ApiVersionsResponse")
        [0, 35, 255, 255, 255, 255, 15] :=
  ⟨rfl, decoders_tame.1 _ _, rfl, decoders_tame.2 _ _ _ apiVersions_generated
    apiVersions_hasDefaults apiVersions_resolves _ rfl 3 _ _ _ 40 (by decide)⟩

end Odradek.Codegen
