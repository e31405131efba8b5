import Busyncr.Lib.ByteCodec
import Std.Data.ExtTreeMap.Lemmas

/-!
The identifiers every part of the system exchanges: 32-byte chunk IDs and
16-byte snapshot ULIDs, both ordered as the database orders their bytes.
-/

namespace Busyncr

open Std

abbrev Bytes := List UInt8

/-- Identity of a chunk: the 32-byte hash of its plaintext. -/
structure ChunkId where
  raw : Vector UInt8 32
deriving DecidableEq

namespace ChunkId

/-- Number of raw bytes in a chunk ID (`ChunkId::LEN`). -/
def len : Nat := 32

def asBytes (id : ChunkId) : Bytes := id.raw.toList

/-- Read a chunk ID from a slice; any other width is refused. -/
def fromSlice? (bytes : Bytes) : Option ChunkId :=
  if width : bytes.length = 32 then some ⟨⟨bytes.toArray, by simpa using width⟩⟩ else none

@[simp]
theorem length_asBytes (id : ChunkId) : id.asBytes.length = 32 := by
  simp [asBytes]

@[simp]
theorem fromSlice?_asBytes (id : ChunkId) : fromSlice? id.asBytes = some id := by
  rcases id with ⟨⟨elements, width⟩⟩
  simp [fromSlice?, asBytes, Vector.toList, width]

theorem asBytes_of_fromSlice? {bytes : Bytes} {id : ChunkId}
    (read : fromSlice? bytes = some id) : id.asBytes = bytes := by
  unfold fromSlice? at read
  split at read
  next width =>
    cases read
    simp [asBytes, Vector.toList]
  next mismatch => cases read

theorem asBytes_injective : Function.Injective asBytes := by
  intro left right same
  have read := fromSlice?_asBytes left
  rw [same, fromSlice?_asBytes] at read
  exact (Option.some.inj read).symm

instance : Ord ChunkId := ⟨compareOn raw⟩

instance : TransOrd ChunkId := inferInstanceAs (TransCmp (compareOn raw))

instance : LawfulEqOrd ChunkId where
  toReflCmp := inferInstanceAs (ReflCmp (compareOn raw))
  eq_of_compare {left right} same := by
    have rawSame : left.raw = right.raw := LawfulEqOrd.compare_eq_iff_eq.mp same
    cases left
    cases right
    simpa using rawSame

end ChunkId

/-- A snapshot ULID: 48 bits of milliseconds followed by 80 random bits. -/
structure Ulid where
  value : BitVec 128
deriving DecidableEq

namespace Ulid

/-- Milliseconds since the Unix epoch carried in the top 48 bits. -/
def timestampMs (id : Ulid) : Nat := id.value.toNat / 2 ^ 80

/-- Assemble a ULID, keeping the low 48 bits of the time and the low 80 bits
of the random part. -/
def fromParts (timestampMs random : Nat) : Ulid :=
  ⟨BitVec.ofNat 128 (timestampMs % 2 ^ 48 * 2 ^ 80 + random % 2 ^ 80)⟩

/-- The standard binary form: 16 bytes, most significant first. -/
def toBytes (id : Ulid) : Bytes := ByteCodec.big 16 id.value.toNat

/-- Read the binary form; any other width is refused. -/
def fromSlice? (bytes : Bytes) : Option Ulid :=
  if bytes.length = 16 then some ⟨BitVec.ofNat 128 (ByteCodec.bigValue bytes)⟩ else none

@[simp]
theorem length_toBytes (id : Ulid) : id.toBytes.length = 16 := by
  simp [toBytes]

@[simp]
theorem fromSlice?_toBytes (id : Ulid) : fromSlice? id.toBytes = some id := by
  have small : id.value.toNat < 256 ^ 16 := id.value.isLt
  simp [fromSlice?, toBytes, ByteCodec.bigValue_big_of_lt small]

theorem toBytes_of_fromSlice? {bytes : Bytes} {id : Ulid}
    (read : fromSlice? bytes = some id) : id.toBytes = bytes := by
  unfold fromSlice? at read
  split at read
  next width =>
    cases read
    have small := ByteCodec.bigValue_lt bytes
    rw [width] at small
    have back := ByteCodec.big_bigValue bytes
    rw [width] at back
    rw [toBytes, BitVec.toNat_ofNat, Nat.mod_eq_of_lt (by simpa using small), back]
  next mismatch => cases read

instance : LE Ulid := ⟨fun left right => left.value.toNat ≤ right.value.toNat⟩

instance : LT Ulid := ⟨fun left right => left.value.toNat < right.value.toNat⟩

instance (left right : Ulid) : Decidable (left ≤ right) :=
  inferInstanceAs (Decidable (left.value.toNat ≤ right.value.toNat))

instance (left right : Ulid) : Decidable (left < right) :=
  inferInstanceAs (Decidable (left.value.toNat < right.value.toNat))

theorem le_iff {left right : Ulid} : left ≤ right ↔ left.value.toNat ≤ right.value.toNat :=
  Iff.rfl

theorem lt_iff {left right : Ulid} : left < right ↔ left.value.toNat < right.value.toNat :=
  Iff.rfl

theorem ext_toNat {left right : Ulid} (same : left.value.toNat = right.value.toNat) :
    left = right := by
  cases left
  cases right
  simpa using BitVec.eq_of_toNat_eq same

theorem timestampMs_lt (id : Ulid) : id.timestampMs < 2 ^ 48 := by
  have bound := id.value.isLt
  unfold timestampMs
  omega

/-- A later ULID never carries an earlier time. -/
theorem timestampMs_mono {left right : Ulid} (ordered : left ≤ right) :
    left.timestampMs ≤ right.timestampMs :=
  Nat.div_le_div_right ordered

instance : Ord Ulid := ⟨compareOn fun id => id.value.toNat⟩

instance : TransOrd Ulid := inferInstanceAs (TransCmp (compareOn fun id : Ulid => id.value.toNat))

instance : LawfulEqOrd Ulid where
  toReflCmp := inferInstanceAs (ReflCmp (compareOn fun id : Ulid => id.value.toNat))
  eq_of_compare same := ext_toNat (LawfulEqOrd.compare_eq_iff_eq.mp same)

theorem compare_eq_lt {left right : Ulid} : compare left right = .lt ↔ left < right :=
  Nat.compare_eq_lt

end Ulid

end Busyncr
