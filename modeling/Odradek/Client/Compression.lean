import Odradek.Client.Error
import Odradek.Protocol.Records

/-!
Batch compression (`compression.rs`). The codecs are libraries: gzip, lz4,
snappy and zstd are a parameter, and the source's own part is which codecs
there are.
-/

namespace Odradek.Client

open Odradek.Protocol

/-- The codec libraries, each behind its feature. -/
structure Codecs where
  gzip : Bytes → Except ClientError Bytes
  gunzip : Bytes → Except ClientError Bytes
  snappy : Bytes → Except ClientError Bytes
  unsnappy : Bytes → Except ClientError Bytes
  lz4 : Bytes → Except ClientError Bytes
  unlz4 : Bytes → Except ClientError Bytes
  zstd : Bytes → Except ClientError Bytes
  unzstd : Bytes → Except ClientError Bytes

/-- `MAX_DECOMPRESSED`, and the consumer's `MAX_FETCH_DECOMPRESSED`. -/
def maxDecompressed : Nat := defaultMaxFrame

def compress (codecs : Codecs) (codec : Compression) (payload : Bytes) : Except ClientError Bytes :=
  match codec with
  | .none => .ok payload
  | .gzip => codecs.gzip payload
  | .lz4 => codecs.lz4 payload
  | .snappy => codecs.snappy payload
  | .zstd => codecs.zstd payload
  | .unknown _ => .error (.unsupportedCompression "unknown codec")

def decompress (codecs : Codecs) (codec : Compression) (payload : Bytes) :
    Except ClientError Bytes :=
  match codec with
  | .none => .ok payload
  | .gzip => codecs.gunzip payload
  | .lz4 => codecs.unlz4 payload
  | .snappy => codecs.unsnappy payload
  | .zstd => codecs.unzstd payload
  | .unknown _ => .error (.unsupportedCompression "unknown codec")

/-- One library undoes its own work, up to the cap. -/
def Undoes (pack unpack : Bytes → Except ClientError Bytes) : Prop :=
  ∀ payload packed, pack payload = .ok packed → payload.length ≤ maxDecompressed →
    unpack packed = .ok payload

structure Codecs.Faithful (codecs : Codecs) : Prop where
  gzip : Undoes codecs.gzip codecs.gunzip
  snappy : Undoes codecs.snappy codecs.unsnappy
  lz4 : Undoes codecs.lz4 codecs.unlz4
  zstd : Undoes codecs.zstd codecs.unzstd

theorem Codecs.Faithful.decompress_compress {codecs : Codecs} (h : codecs.Faithful)
    {codec : Compression} {payload packed : Bytes}
    (hpack : compress codecs codec payload = .ok packed)
    (hlen : payload.length ≤ maxDecompressed) : decompress codecs codec packed = .ok payload := by
  cases codec with
  | none =>
      cases hpack
      rfl
  | gzip => exact h.gzip payload packed hpack hlen
  | snappy => exact h.snappy payload packed hpack hlen
  | lz4 => exact h.lz4 payload packed hpack hlen
  | zstd => exact h.zstd payload packed hpack hlen
  | unknown bits => cases hpack

def Codecs.stored : Codecs :=
  { gzip := .ok, gunzip := .ok, snappy := .ok, unsnappy := .ok, lz4 := .ok, unlz4 := .ok,
    zstd := .ok, unzstd := .ok }

theorem Codecs.stored_faithful : Codecs.stored.Faithful := by
  have h : Undoes .ok .ok := by
    rintro payload _ ⟨⟩ _
    rfl
  exact ⟨h, h, h, h⟩

end Odradek.Client
