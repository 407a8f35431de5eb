import Odradek.Protocol.Crc

/-!
Kafka's default partitioner (`murmur2`, `partition_for_key` of `producer.rs`),
for keys whose length is a `u32`.
-/

namespace Odradek.Client

open Odradek.Protocol

def murmurSeed : UInt32 := 0x9747b28c
def murmurM : UInt32 := 0x5bd1e995
def murmurR : UInt32 := 24

def murmurChunk (h k : UInt32) : UInt32 :=
  let k := k * murmurM
  let k := (k ^^^ (k >>> murmurR)) * murmurM
  h * murmurM ^^^ k

/-- The chunks, then the one to three bytes that are left. -/
def murmurBytes : UInt32 → Bytes → UInt32
  | h, b0 :: b1 :: b2 :: b3 :: rest =>
    murmurBytes (murmurChunk h (fromLittleEndian b0 b1 b2 b3)) rest
  | h, [b0, b1, b2] =>
    (h ^^^ (b2.toUInt32 <<< 16) ^^^ (b1.toUInt32 <<< 8) ^^^ b0.toUInt32) * murmurM
  | h, [b0, b1] => (h ^^^ (b1.toUInt32 <<< 8) ^^^ b0.toUInt32) * murmurM
  | h, [b0] => (h ^^^ b0.toUInt32) * murmurM
  | h, [] => h

def murmur2 (data : Bytes) : Int32 :=
  let h := murmurBytes (murmurSeed ^^^ UInt32.ofNat data.length) data
  let h := (h ^^^ (h >>> 13)) * murmurM
  (h ^^^ (h >>> 15)).toInt32

def partitionForKey (key : Bytes) (count : Int32) : Int32 := (murmur2 key &&& 0x7fffffff) % count

example : murmur2 [50, 49] = -973932308 := by decide

example : murmur2 [] = 275646681 := by decide

end Odradek.Client
