import Mathlib.Data.List.Forall2
import Odradek.Client.Compression
import Odradek.Library.Chunks
import Odradek.Library.Results
import Odradek.Library.Text

/-!
The xerial framing of snappy (`compression.rs`): a header of 16 bytes, then blocks
of up to 32 KiB, each behind its length. The raw block codec is a library. The
reader keeps a running total, so no chain of blocks gets past the cap.
-/

namespace Odradek.Client

open Library Odradek.Protocol

/-- `snap::raw`; an error is the text it displays. -/
structure RawSnappy where
  compressVec : Bytes → Except String Bytes
  decompressLen : Bytes → Except String Nat
  decompressVec : Bytes → Except String Bytes

section Framing

variable (raw : RawSnappy)

def xerialHeader : Bytes :=
  [0x82, 0x53, 0x4e, 0x41, 0x50, 0x50, 0x59, 0x00, 0, 0, 0, 1, 0, 0, 0, 1]

def xerialBlock : Nat := 32 <<< 10

/-- `map_err`, with what was being done. -/
def snappyErr {α : Type} (doing : String) : Except String α → Except ClientError α
  | .ok a => .ok a
  | .error e => .error (.protocolViolation (doing ++ e))

def truncatedBlock : ClientError := .protocolViolation "truncated xerial block"

def exceedsCap : ClientError := .protocolViolation "decompressed batch exceeds size cap"

def putBlock (block : Bytes) : Bytes := toBigEndian 4 block.length ++ block

def compressBlocks : List Bytes → Except ClientError Bytes
  | [] => .ok []
  | chunk :: chunks => do
    let block ← snappyErr "snappy encode: " (raw.compressVec chunk)
    if 2 ^ 32 ≤ block.length then .error (.protocolViolation "snappy block too large")
    else
      let rest ← compressBlocks chunks
      pure (putBlock block ++ rest)

def snappyCompress (payload : Bytes) : Except ClientError Bytes := do
  let blocks ← compressBlocks raw (chunks xerialBlock payload)
  pure (xerialHeader ++ blocks)

/-- The loop over the blocks, with what came out of the ones before. -/
def decompressBlocks (rest out : Bytes) : Except ClientError Bytes :=
  if rest.isEmpty then .ok out
  else if rest.length < 4 then .error truncatedBlock
  else
    let len := ofBigEndian (rest.take 4)
    let tail := rest.drop 4
    if tail.length < len then .error truncatedBlock
    else do
      let block := tail.take len
      let uncompressed ← snappyErr "snappy decode: " (raw.decompressLen block)
      if maxDecompressed < out.length + uncompressed then .error exceedsCap
      else
        let bytes ← snappyErr "snappy decode: " (raw.decompressVec block)
        decompressBlocks (tail.drop len) (out ++ bytes)
termination_by rest.length
decreasing_by
  rw [List.length_drop, List.length_drop]
  omega

/-- `snappy_decompress`: without the magic it is one bare block. -/
def snappyDecompress (payload : Bytes) : Except ClientError Bytes :=
  if payload.length < xerialHeader.length ∨ payload.take 8 ≠ xerialHeader.take 8 then do
    let uncompressed ← snappyErr "snappy decode: " (raw.decompressLen payload)
    if maxDecompressed < uncompressed then .error exceedsCap
    else snappyErr "snappy decode: " (raw.decompressVec payload)
  else decompressBlocks raw (payload.drop xerialHeader.length) []

end Framing

/-- What the library documents: a block of a chunk is at most so long, gives the
chunk back, and what is decompressed is as long as announced. -/
structure RawSnappy.Exact (raw : RawSnappy) : Prop where
  compresses : ∀ chunk, chunk.length ≤ xerialBlock →
    ∃ block, raw.compressVec chunk = .ok block ∧
      block.length ≤ 32 + chunk.length + chunk.length / 6
  restores : ∀ chunk block, raw.compressVec chunk = .ok block → raw.decompressVec block = .ok chunk
  measures : ∀ block chunk, raw.decompressVec block = .ok chunk →
    raw.decompressLen block = .ok chunk.length

/-- All of it, or the error when it is over the cap. -/
def capped (bytes : Bytes) : Except ClientError Bytes :=
  if maxDecompressed < bytes.length then .error exceedsCap else .ok bytes

/-- Each block is what the library makes of its chunk. -/
def Blocks (raw : RawSnappy) (chunks blocks : List Bytes) : Prop :=
  List.Forall₂ (fun chunk block => raw.compressVec chunk = .ok block ∧ block.length < 2 ^ 32)
    chunks blocks

variable {raw : RawSnappy} {block chunk part rest out : Bytes}

section Compressing

theorem Blocks.exist (h : raw.Exact) {chunks : List Bytes}
    (hchunks : ∀ chunk ∈ chunks, chunk.length ≤ xerialBlock) :
    ∃ blocks, Blocks raw chunks blocks := by
  induction chunks with
  | nil => exact ⟨[], .nil⟩
  | cons chunk chunks ih =>
      rw [List.forall_mem_cons] at hchunks
      obtain ⟨block, hblock, hlength⟩ := h.compresses chunk hchunks.1
      obtain ⟨blocks, hblocks⟩ := ih hchunks.2
      have hshort : block.length < 2 ^ 32 := by
        have hle := hchunks.1
        unfold xerialBlock at hle
        omega
      exact ⟨block :: blocks, .cons ⟨hblock, hshort⟩ hblocks⟩

theorem compressBlocks_eq {chunks blocks : List Bytes} (h : Blocks raw chunks blocks) :
    compressBlocks raw chunks = .ok (blocks.flatMap putBlock) := by
  induction h with
  | nil => rfl
  | cons hblock _ ih =>
      rw [compressBlocks, hblock.1]
      show (if _ then _ else _) = _
      rw [if_neg (Nat.not_le.mpr hblock.2), ih]
      rfl

end Compressing

section Decompressing

theorem length_putBlock : (putBlock block).length = 4 + block.length := by
  rw [putBlock, List.length_append, length_toBigEndian]

theorem ofBigEndian_length (h : block.length < 2 ^ 32) :
    ofBigEndian (toBigEndian 4 block.length) = block.length := by
  rw [ofBigEndian_toBigEndian]
  exact Nat.mod_eq_of_lt h

/-- One block more, unless it does not fit. -/
theorem decompressBlocks_block (h : raw.Exact) (hblock : raw.compressVec chunk = .ok block)
    (hlength : block.length < 2 ^ 32) :
    decompressBlocks raw (putBlock block ++ rest) out =
      if maxDecompressed < (out ++ chunk).length then .error exceedsCap
      else decompressBlocks raw rest (out ++ chunk) := by
  have hvec := h.restores _ _ hblock
  have htotal : (putBlock block ++ rest).length = 4 + block.length + rest.length := by
    rw [List.length_append, length_putBlock]
  have hfour : (toBigEndian 4 block.length).length = 4 := length_toBigEndian 4 _
  have htake : (putBlock block ++ rest).take 4 = toBigEndian 4 block.length := by
    rw [putBlock, List.append_assoc]
    exact List.take_left' hfour
  have hdrop : (putBlock block ++ rest).drop 4 = block ++ rest := by
    rw [putBlock, List.append_assoc]
    exact List.drop_left' hfour
  have hne : (putBlock block ++ rest).isEmpty = false := by
    rw [List.isEmpty_eq_false_iff]
    intro hnil
    rw [hnil, List.length_nil] at htotal
    omega
  rw [decompressBlocks, hne, if_neg (by decide), if_neg (by omega)]
  simp only [htake, hdrop, ofBigEndian_length hlength]
  rw [if_neg (by rw [List.length_append]; omega), List.take_left, List.drop_left,
    h.measures _ _ hvec, hvec, List.length_append]
  rfl

theorem decompressBlocks_blocks (h : raw.Exact) {chunks blocks : List Bytes}
    (hblocks : Blocks raw chunks blocks) (hout : out.length ≤ maxDecompressed) :
    decompressBlocks raw (blocks.flatMap putBlock ++ rest) out =
      if maxDecompressed < (out ++ chunks.flatten).length then .error exceedsCap
      else decompressBlocks raw rest (out ++ chunks.flatten) := by
  induction hblocks generalizing out with
  | nil =>
      rw [List.flatten_nil, List.append_nil, if_neg (Nat.not_lt.mpr hout)]
      rfl
  | @cons chunk block chunks blocks hblock _ ih =>
      rw [List.flatMap_cons, List.append_assoc,
        decompressBlocks_block h hblock.1 hblock.2, List.flatten_cons, ← List.append_assoc]
      by_cases hcap : maxDecompressed < (out ++ chunk).length
      · rw [if_pos hcap, if_pos (by rw [List.length_append]; omega)]
      · rw [if_neg hcap, ih (Nat.not_lt.mp hcap)]

/-- A block that was cut short is an error. -/
theorem decompressBlocks_part (hlength : block.length < 2 ^ 32) (hpart : part <+: putBlock block)
    (hne : part ≠ []) (hshort : part.length < (putBlock block).length) :
    decompressBlocks raw part out = .error truncatedBlock := by
  have hempty : part.isEmpty = false := List.isEmpty_eq_false_iff.mpr hne
  rw [length_putBlock] at hshort
  rw [decompressBlocks, hempty, if_neg (by decide)]
  by_cases hfour : part.length < 4
  · rw [if_pos hfour]
  · obtain ⟨tail, htail⟩ := hpart
    have htake : part.take 4 = toBigEndian 4 block.length := by
      have hput : (putBlock block).take 4 = toBigEndian 4 block.length :=
        List.take_left' (length_toBigEndian 4 _)
      rw [← hput, ← htail, List.take_append_of_le_length (by omega)]
    rw [if_neg hfour]
    simp only [htake, ofBigEndian_length hlength]
    rw [if_pos (by rw [List.length_drop]; omega)]

theorem snappyErr_eq_ok {α : Type} {doing : String} {x : Except String α} {a : α} :
    snappyErr doing x = .ok a ↔ x = .ok a := by
  cases x with
  | error e => exact ⟨fun h => (by cases h), fun h => (by cases h)⟩
  | ok b => exact ⟨fun h => (by cases h; rfl), fun h => (by cases h; rfl)⟩

/-- The running total never passes the cap. -/
theorem decompressBlocks_le (h : raw.Exact) {bytes : Bytes} (hout : out.length ≤ maxDecompressed)
    (hbytes : decompressBlocks raw rest out = .ok bytes) : bytes.length ≤ maxDecompressed := by
  induction hlength : rest.length using Nat.strongRecOn generalizing rest out with
  | ind n ih =>
      rw [decompressBlocks] at hbytes
      split at hbytes
      · cases hbytes
        exact hout
      · split at hbytes
        · cases hbytes
        · simp only at hbytes
          split at hbytes
          · cases hbytes
          · obtain ⟨uncompressed, hlen, hbytes⟩ := except_bind_eq_ok.mp hbytes
            split at hbytes
            · cases hbytes
            · obtain ⟨chunk, hchunk, hbytes⟩ := except_bind_eq_ok.mp hbytes
              rw [snappyErr_eq_ok] at hlen hchunk
              rw [h.measures _ _ hchunk] at hlen
              cases hlen
              refine ih _ ?_ ?_ hbytes rfl
              · rw [List.length_drop, List.length_drop]
                omega
              · rw [List.length_append]
                omega

theorem snappyDecompress_le (h : raw.Exact) {input bytes : Bytes}
    (hbytes : snappyDecompress raw input = .ok bytes) : bytes.length ≤ maxDecompressed := by
  unfold snappyDecompress at hbytes
  split at hbytes
  · obtain ⟨uncompressed, hlen, hbytes⟩ := except_bind_eq_ok.mp hbytes
    split at hbytes
    · cases hbytes
    · rw [snappyErr_eq_ok] at hlen hbytes
      rw [h.measures _ _ hbytes] at hlen
      cases hlen
      omega
  · exact decompressBlocks_le h (Nat.zero_le _) hbytes

theorem snappyDecompress_framed (rest : Bytes) :
    snappyDecompress raw (xerialHeader ++ rest) = decompressBlocks raw rest [] := by
  have hlength : ¬ (xerialHeader ++ rest).length < xerialHeader.length := by
    rw [List.length_append]
    omega
  rw [snappyDecompress, if_neg, List.drop_left]
  rw [not_or]
  refine ⟨hlength, not_not_intro ?_⟩
  rw [List.take_append_of_le_length (by decide)]

/-- What is behind the header is read as what its blocks hold. -/
theorem snappyDecompress_blocks (h : raw.Exact) {chunks blocks : List Bytes}
    (hblocks : Blocks raw chunks blocks) :
    snappyDecompress raw (xerialHeader ++ blocks.flatMap putBlock) = capped chunks.flatten := by
  have hread : decompressBlocks raw (blocks.flatMap putBlock ++ []) [] = _ :=
    decompressBlocks_blocks h hblocks (Nat.zero_le _)
  rw [List.append_nil, List.nil_append] at hread
  rw [snappyDecompress_framed, hread, decompressBlocks]
  rfl

theorem Blocks.take {chunks blocks : List Bytes} (h : Blocks raw chunks blocks) (k : Nat) :
    Blocks raw (chunks.take k) (blocks.take k) := List.forall₂_take k h

theorem Blocks.short {chunks blocks : List Bytes} (h : Blocks raw chunks blocks) :
    ∀ block ∈ blocks, block.length < 2 ^ 32 := by
  induction h with
  | nil => exact fun _ hmem => by cases hmem
  | cons hblock _ ih => exact List.forall_mem_cons.mpr ⟨hblock.2, ih⟩

/-- Behind whole blocks, a block cut short is still an error. -/
theorem snappyDecompress_part (h : raw.Exact) {chunks blocks : List Bytes}
    (hblocks : Blocks raw chunks blocks) (hlength : block.length < 2 ^ 32)
    (hpart : part <+: putBlock block) (hne : part ≠ [])
    (hshort : part.length < (putBlock block).length) :
    ∃ e, snappyDecompress raw (xerialHeader ++ (blocks.flatMap putBlock ++ part)) = .error e := by
  rw [snappyDecompress_framed, decompressBlocks_blocks h hblocks (Nat.zero_le _)]
  split
  · exact ⟨_, rfl⟩
  · exact ⟨_, decompressBlocks_part hlength hpart hne hshort⟩

end Decompressing

section Payloads

/-- Where the header and the first `k` blocks end. -/
def cut (blocks : List Bytes) (k : Nat) : Nat :=
  xerialHeader.length + ((blocks.take k).flatMap putBlock).length

theorem snappyCompress_eq (h : raw.Exact) (payload : Bytes) :
    ∃ blocks, Blocks raw (chunks xerialBlock payload) blocks ∧
      snappyCompress raw payload = .ok (xerialHeader ++ blocks.flatMap putBlock) := by
  obtain ⟨blocks, hblocks⟩ :=
    Blocks.exist h fun chunk (hchunk : chunk ∈ chunks xerialBlock payload) =>
    length_le_of_mem_chunks hchunk
  refine ⟨blocks, hblocks, ?_⟩
  rw [snappyCompress, compressBlocks_eq hblocks]
  rfl

theorem snappyDecompress_cut (h : raw.Exact) {payload : Bytes} {blocks : List Bytes}
    (hblocks : Blocks raw (chunks xerialBlock payload) blocks) (k : Nat) :
    snappyDecompress raw ((xerialHeader ++ blocks.flatMap putBlock).take (cut blocks k)) =
      capped (payload.take (k * xerialBlock)) := by
  have htake := take_flatMap_take putBlock blocks k []
  rw [List.append_nil] at htake
  rw [cut, List.take_length_add_append, htake, snappyDecompress_blocks h (hblocks.take k),
    flatten_take_chunks (by decide)]

theorem snappyDecompress_within (h : raw.Exact) {payload : Bytes} {blocks : List Bytes}
    (hblocks : Blocks raw (chunks xerialBlock payload) blocks) {n : Nat}
    (hheader : xerialHeader.length ≤ n)
    (hn : n < (xerialHeader ++ blocks.flatMap putBlock).length) (hcut : ∀ k, n ≠ cut blocks k) :
    ∃ e, snappyDecompress raw ((xerialHeader ++ blocks.flatMap putBlock).take n) = .error e := by
  rw [List.length_append] at hn
  obtain ⟨m, rfl⟩ := Nat.exists_eq_add_of_le hheader
  have hm : m < (blocks.flatMap putBlock).length := by omega
  obtain ⟨k, block, part, hmem, hpart, hne, hshort, htake⟩ :=
    take_flatMap_within hm fun k heq => hcut k (by rw [heq, cut])
  rw [List.take_length_add_append, htake]
  exact snappyDecompress_part h (hblocks.take k) (hblocks.short block hmem) hpart hne hshort

/-- The framing gives a payload back up to the cap, and so do its first blocks when
it is cut behind them; a cut anywhere else is an error, and nothing whatever is
decompressed to more than the cap. -/
theorem snappy_framing (h : raw.Exact) (payload : Bytes) :
    ∃ framed blocks, snappyCompress raw payload = .ok framed ∧
      framed = xerialHeader ++ blocks.flatMap putBlock ∧
      Blocks raw (chunks xerialBlock payload) blocks ∧
      snappyDecompress raw framed = capped payload ∧
      (∀ k, snappyDecompress raw (framed.take (cut blocks k)) =
        capped (payload.take (k * xerialBlock))) ∧
      (∀ n, xerialHeader.length ≤ n → n < framed.length → (∀ k, n ≠ cut blocks k) →
        ∃ e, snappyDecompress raw (framed.take n) = .error e) ∧
      ∀ input bytes, snappyDecompress raw input = .ok bytes → bytes.length ≤ maxDecompressed := by
  obtain ⟨blocks, hblocks, hcompress⟩ := snappyCompress_eq h payload
  have hwhole := snappyDecompress_blocks h hblocks
  rw [flatten_chunks (by decide)] at hwhole
  exact ⟨_, blocks, hcompress, rfl, hblocks, hwhole, snappyDecompress_cut h hblocks,
    fun n hheader hn hcut => snappyDecompress_within h hblocks hheader hn hcut,
    fun _ _ => snappyDecompress_le h⟩

end Payloads

section Libraries

/-- These codecs with the framing of the source around a block codec. -/
def Codecs.framed (codecs : Codecs) (raw : RawSnappy) : Codecs :=
  { codecs with snappy := snappyCompress raw, unsnappy := snappyDecompress raw }

theorem snappy_undoes (h : raw.Exact) : Undoes (snappyCompress raw) (snappyDecompress raw) := by
  intro payload packed hpack hlength
  obtain ⟨blocks, hblocks, hcompress⟩ := snappyCompress_eq h payload
  have hwhole := snappyDecompress_blocks h hblocks
  rw [hcompress] at hpack
  cases hpack
  rw [hwhole, flatten_chunks (by decide), capped, if_neg (Nat.not_lt.mpr hlength)]

theorem Codecs.Faithful.framed {codecs : Codecs} (h : codecs.Faithful) (hraw : raw.Exact) :
    (codecs.framed raw).Faithful :=
  { h with snappy := snappy_undoes hraw }

end Libraries

section Literals

def longLength : Bytes → Nat
  | low :: middle :: high :: _ =>
    (low.toNat - 128) + 128 * (middle.toNat - 128) + 128 * 128 * high.toNat
  | _ => 0

def putLongLength (n : Nat) : Bytes :=
  [UInt8.ofNat (128 + n % 128), UInt8.ofNat (128 + n / 128 % 128), UInt8.ofNat (n / (128 * 128))]

/-- The tag of a literal, with two bytes for its length. -/
def putLongTag (n : Nat) : Bytes :=
  [0xf4, UInt8.ofNat ((n - 1) % 256), UInt8.ofNat ((n - 1) / 256)]

/-- Blocks of one literal, as the library makes them where nothing repeats: a short one
has its length and its tag in a byte each, a long one in three. -/
def literalSnappy : RawSnappy where
  compressVec chunk :=
    if chunk = [] then .ok [0]
    else if chunk.length < 60 then
      .ok (UInt8.ofNat chunk.length :: UInt8.ofNat ((chunk.length - 1) * 4) :: chunk)
    else if chunk.length ≤ 2 ^ 16 then
      .ok (putLongLength chunk.length ++ (putLongTag chunk.length ++ chunk))
    else .error "input buffer is too big"
  decompressLen
    | [] => .ok 0
    | first :: rest =>
      if first.toNat < 60 then .ok first.toNat else .ok (longLength (first :: rest))
  decompressVec
    | [] => .error "corrupt input (empty)"
    | first :: rest =>
      if first.toNat < 60 then
        if (rest.drop 1).length = first.toNat then .ok (rest.drop 1) else .error "corrupt input"
      else if (rest.drop 5).length = longLength (first :: rest) then .ok (rest.drop 5)
      else .error "corrupt input"

theorem longLength_put {n : Nat} (h : n ≤ 2 ^ 16) (rest : Bytes) :
    longLength (putLongLength n ++ rest) = n := by
  have hlow : (UInt8.ofNat (128 + n % 128)).toNat = 128 + n % 128 := by
    rw [UInt8.toNat_ofNat']
    omega
  have hmiddle : (UInt8.ofNat (128 + n / 128 % 128)).toNat = 128 + n / 128 % 128 := by
    rw [UInt8.toNat_ofNat']
    omega
  have hhigh : (UInt8.ofNat (n / (128 * 128))).toNat = n / (128 * 128) := by
    rw [UInt8.toNat_ofNat']
    omega
  show (UInt8.ofNat _).toNat - 128 + 128 * ((UInt8.ofNat _).toNat - 128) +
    128 * 128 * (UInt8.ofNat _).toNat = n
  rw [hlow, hmiddle, hhigh]
  omega

theorem literalSnappy_short {chunk : Bytes} (hshort : chunk.length < 60) :
    literalSnappy.decompressVec
      (UInt8.ofNat chunk.length :: UInt8.ofNat ((chunk.length - 1) * 4) :: chunk) = .ok chunk := by
  have hbyte : (UInt8.ofNat chunk.length).toNat = chunk.length := by
    rw [UInt8.toNat_ofNat']
    omega
  unfold literalSnappy
  simp only
  rw [hbyte, if_pos hshort, List.drop_one, List.tail_cons, if_pos rfl]

theorem literalSnappy_long {chunk : Bytes} (hfits : chunk.length ≤ 2 ^ 16) :
    literalSnappy.decompressVec
      (putLongLength chunk.length ++ (putLongTag chunk.length ++ chunk)) = .ok chunk := by
  have hlong : ¬ (UInt8.ofNat (128 + chunk.length % 128)).toNat < 60 := by
    rw [UInt8.toNat_ofNat']
    omega
  have hlength := longLength_put hfits (putLongTag chunk.length ++ chunk)
  unfold literalSnappy
  rw [putLongLength] at hlength ⊢
  simp only [List.cons_append, List.nil_append] at hlength ⊢
  rw [if_neg hlong, hlength]
  simp only [putLongTag, List.cons_append, List.nil_append, List.drop_succ_cons, List.drop_zero,
    if_true]

theorem literalSnappy_exact : literalSnappy.Exact where
  compresses chunk hchunk := by
    unfold xerialBlock at hchunk
    unfold literalSnappy
    simp only
    by_cases hnil : chunk = []
    · rw [if_pos hnil]
      exact ⟨_, rfl, by rw [List.length_singleton]; omega⟩
    · rw [if_neg hnil]
      by_cases hshort : chunk.length < 60
      · rw [if_pos hshort]
        exact ⟨_, rfl, by rw [List.length_cons, List.length_cons]; omega⟩
      · rw [if_neg hshort, if_pos (by omega)]
        refine ⟨_, rfl, ?_⟩
        simp only [List.length_append, putLongLength, putLongTag, List.length_cons,
          List.length_nil]
        omega
  restores chunk block h := by
    by_cases hnil : chunk = []
    · subst hnil
      cases h
      rfl
    by_cases hshort : chunk.length < 60
    · simp only [literalSnappy, if_neg hnil, if_pos hshort] at h
      cases h
      exact literalSnappy_short hshort
    · simp only [literalSnappy, if_neg hnil, if_neg hshort] at h
      split at h
      next hfits =>
          cases h
          exact literalSnappy_long hfits
      next => cases h
  measures block chunk h := by
    unfold literalSnappy at h ⊢
    cases block with
    | nil => cases h
    | cons first rest =>
        simp only at h ⊢
        split at h
        · rename_i hshort
          split at h
          · cases h
            rw [if_pos hshort, ‹(rest.drop 1).length = _›]
          · cases h
        · rename_i hshort
          split at h
          · cases h
            rw [if_neg hshort, ‹(rest.drop 5).length = _›]
          · cases h

/-- A whole block in which no four bytes occur twice: the library finds nothing to copy. -/
def plainBlock : Bytes :=
  (List.range (128 * 128)).flatMap fun i => [UInt8.ofNat (128 + i / 128), UInt8.ofNat (i % 128)]

theorem length_plainBlock : plainBlock.length = xerialBlock := by
  simp only [plainBlock, List.length_flatMap, List.length_cons, List.length_nil, List.map_const',
    List.length_range, List.sum_replicate_nat]
  decide

def plainPayload : Bytes := plainBlock ++ Text.utf8 "hello".toList

theorem chunks_plainPayload :
    chunks xerialBlock plainPayload = [plainBlock, Text.utf8 "hello".toList] := by
  have hne : plainPayload ≠ [] := List.append_ne_nil_of_right_ne_nil _ (by decide)
  rw [chunks_of_ne_nil (by decide) hne, plainPayload, ← length_plainBlock, List.take_left,
    List.drop_left, length_plainBlock, chunks_of_ne_nil (by decide) (by decide),
    List.take_of_length_le (by decide), List.drop_of_length_le (by decide), chunks_nil]

/-- A block of the full length and a short one. -/
theorem snappy_framing_blocks : ∃ framed blocks,
    snappyCompress literalSnappy plainPayload = .ok framed ∧
      framed = xerialHeader ++ blocks.flatMap putBlock ∧
      Blocks literalSnappy [plainBlock, Text.utf8 "hello".toList] blocks ∧
      snappyDecompress literalSnappy framed = capped plainPayload ∧
      (∀ k, snappyDecompress literalSnappy (framed.take (cut blocks k)) =
        capped (plainPayload.take (k * xerialBlock))) ∧
      (∀ n, xerialHeader.length ≤ n → n < framed.length → (∀ k, n ≠ cut blocks k) →
        ∃ e, snappyDecompress literalSnappy (framed.take n) = .error e) ∧
      ∀ input bytes, snappyDecompress literalSnappy input = .ok bytes →
        bytes.length ≤ maxDecompressed := by
  rw [← chunks_plainPayload]
  exact snappy_framing literalSnappy_exact plainPayload

/-- Every cut between blocks gives the blocks before it back, whatever they come to. -/
def CutsReturnBlocks (raw : RawSnappy) (payload : Bytes) : Prop :=
  ∀ framed blocks, snappyCompress raw payload = .ok framed →
    Blocks raw (chunks xerialBlock payload) blocks → ∀ k,
      snappyDecompress raw (framed.take (cut blocks k)) = .ok (payload.take (k * xerialBlock))

/-- Two blocks over the cap: the cut between them leaves more than is given back. -/
theorem longPayload_capped :
    ¬ CutsReturnBlocks literalSnappy (List.replicate (maxDecompressed + 2 * xerialBlock) 0) := by
  intro hcuts
  obtain ⟨blocks, hblocks, hcompress⟩ := snappyCompress_eq literalSnappy_exact
    (List.replicate (maxDecompressed + 2 * xerialBlock) 0)
  have hcut := snappyDecompress_cut literalSnappy_exact hblocks 2049
  rw [hcuts _ blocks hcompress hblocks 2049, capped, if_pos] at hcut
  · cases hcut
  · rw [List.length_take, List.length_replicate]
    decide

end Literals

end Odradek.Client
