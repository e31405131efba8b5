import Busyncr.Core.Identity

/-!
The daemon's chunk index record and the integers stored beside it, in their
wire layout.
-/

namespace Busyncr

/-- One record of the chunk index: stored blob length and live references. -/
structure IndexEntry where
  chunkLen : UInt64
  refcount : UInt64
deriving DecidableEq

namespace IndexEntry

/-- Serialized size of the value part of a record. -/
def valueSize : Nat := 16

/-- Key and value bytes of one record. -/
def wireSize : Nat := ChunkId.len + valueSize

/-- `chunk_len` then `refcount`, both little-endian. -/
def toWireValue (entry : IndexEntry) : Bytes :=
  ByteCodec.little 8 entry.chunkLen.toNat ++ ByteCodec.little 8 entry.refcount.toNat

def fromWireValue (bytes : Bytes) : IndexEntry where
  chunkLen := UInt64.ofNat (ByteCodec.littleValue (bytes.take 8))
  refcount := UInt64.ofNat (ByteCodec.littleValue (bytes.drop 8))

@[simp]
theorem length_toWireValue (entry : IndexEntry) :
    entry.toWireValue.length = valueSize := by
  simp [toWireValue, valueSize]

@[simp]
theorem fromWireValue_toWireValue (entry : IndexEntry) :
    fromWireValue entry.toWireValue = entry := by
  have lenSmall : entry.chunkLen.toNat < 256 ^ 8 := entry.chunkLen.toNat_lt
  have countSmall : entry.refcount.toNat < 256 ^ 8 := entry.refcount.toNat_lt
  simp [fromWireValue, toWireValue, List.take_left', List.drop_left',
    ByteCodec.littleValue_little_of_lt lenSmall,
    ByteCodec.littleValue_little_of_lt countSmall]

/-- Every 16-byte value is the layout of the record read from it. -/
theorem toWireValue_fromWireValue {bytes : Bytes} (width : bytes.length = valueSize) :
    (fromWireValue bytes).toWireValue = bytes := by
  have headWidth : (bytes.take 8).length = 8 := by simp [width, valueSize]
  have tailWidth : (bytes.drop 8).length = 8 := by simp [width, valueSize]
  have headBound := ByteCodec.littleValue_lt (bytes.take 8)
  have tailBound := ByteCodec.littleValue_lt (bytes.drop 8)
  have headBack := ByteCodec.little_littleValue (bytes.take 8)
  have tailBack := ByteCodec.little_littleValue (bytes.drop 8)
  rw [headWidth] at headBound headBack
  rw [tailWidth] at tailBound tailBack
  rw [toWireValue, fromWireValue, UInt64.toNat_ofNat', UInt64.toNat_ofNat',
    Nat.mod_eq_of_lt (by simpa using headBound), Nat.mod_eq_of_lt (by simpa using tailBound),
    headBack, tailBack, List.take_append_drop]

end IndexEntry

def leU32 (value : UInt32) : Bytes := ByteCodec.little 4 value.toNat

def leU64 (value : UInt64) : Bytes := ByteCodec.little 8 value.toNat

/-- The 8 little-endian bytes of a signed 64-bit integer. -/
def toLeBytes (value : Int64) : Bytes := ByteCodec.little 8 value.toUInt64.toNat

/-- Read 8 little-endian bytes as a signed 64-bit integer. -/
def fromLeBytes (bytes : Bytes) : Int64 :=
  (UInt64.ofNat (ByteCodec.littleValue bytes)).toInt64

@[simp]
theorem length_toLeBytes (value : Int64) : (toLeBytes value).length = 8 := by
  simp [toLeBytes]

@[simp]
theorem fromLeBytes_toLeBytes (value : Int64) : fromLeBytes (toLeBytes value) = value := by
  have small : value.toUInt64.toNat < 256 ^ 8 := value.toUInt64.toNat_lt
  simp [fromLeBytes, toLeBytes, ByteCodec.littleValue_little_of_lt small]

theorem toLeBytes_fromLeBytes {bytes : Bytes} (width : bytes.length = 8) :
    toLeBytes (fromLeBytes bytes) = bytes := by
  have small := ByteCodec.littleValue_lt bytes
  have back := ByteCodec.little_littleValue bytes
  rw [width] at small back
  rw [toLeBytes, fromLeBytes, UInt64.toUInt64_toInt64, UInt64.toNat_ofNat',
    Nat.mod_eq_of_lt (show ByteCodec.littleValue bytes < 2 ^ 64 from small), back]

end Busyncr
