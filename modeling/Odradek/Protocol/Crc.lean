import Odradek.Protocol.Error

/-!
CRC-32C as `records.rs` computes it without the hardware feature: eight bytes
at a time through eight tables, and the remainder a byte at a time.
-/

namespace Odradek.Protocol

def crcBit (crc : UInt32) : UInt32 :=
  if crc &&& 1 ≠ 0 then (crc >>> 1) ^^^ 0x82f63b78 else crc >>> 1

def crcTableZero (i : UInt32) : UInt32 := Nat.repeat crcBit 8 i

/-- `CRC32C_TABLES[slice][i]`. -/
def crcTable : (slice : Nat) → UInt32 → UInt32
  | 0, i => crcTableZero i
  | slice + 1, i =>
    let previous := crcTable slice i
    (previous >>> 8) ^^^ crcTableZero (previous &&& 0xff)

/-- `u32::from_le_bytes`. -/
def fromLittleEndian (b0 b1 b2 b3 : UInt8) : UInt32 :=
  b0.toUInt32 ||| (b1.toUInt32 <<< 8) ||| (b2.toUInt32 <<< 16) ||| (b3.toUInt32 <<< 24)

def crcByte (crc : UInt32) (byte : UInt8) : UInt32 :=
  (crc >>> 8) ^^^ crcTable 0 ((crc ^^^ byte.toUInt32) &&& 0xff)

def crcChunk (crc low high : UInt32) : UInt32 :=
  let low := low ^^^ crc
  crcTable 7 (low &&& 0xff) ^^^ crcTable 6 ((low >>> 8) &&& 0xff) ^^^
    crcTable 5 ((low >>> 16) &&& 0xff) ^^^ crcTable 4 (low >>> 24) ^^^
    crcTable 3 (high &&& 0xff) ^^^ crcTable 2 ((high >>> 8) &&& 0xff) ^^^
    crcTable 1 ((high >>> 16) &&& 0xff) ^^^ crcTable 0 (high >>> 24)

/-- Both loops of `crc32c_portable`. -/
def crcLoop : UInt32 → Bytes → UInt32
  | crc, b0 :: b1 :: b2 :: b3 :: b4 :: b5 :: b6 :: b7 :: rest =>
    crcLoop (crcChunk crc (fromLittleEndian b0 b1 b2 b3) (fromLittleEndian b4 b5 b6 b7)) rest
  | crc, rest => rest.foldl crcByte crc

def crc32c (data : Bytes) : UInt32 := ~~~crcLoop 0xffffffff data

/-- The check value of CRC-32C, for the text `123456789`. -/
example : crc32c [0x31, 0x32, 0x33, 0x34, 0x35, 0x36, 0x37, 0x38, 0x39] = 0xe3069283 := by
  decide +kernel

end Odradek.Protocol
