import Busyncr.Core.Identity

/-!
The BLAKE3 functions the system is built on.  They belong to a library, so
they are parameters; everything said about a chunk's identity is said for
any such pair of functions.
-/

namespace Busyncr

/-- Secret key under which a backup set computes its chunk IDs. -/
structure ChunkIdKey where
  raw : Vector UInt8 32
deriving DecidableEq

/-- The plain and the keyed BLAKE3 hash. -/
structure Blake3 where
  hash : Bytes → Vector UInt8 32
  keyedHash : Vector UInt8 32 → Bytes → Vector UInt8 32

/-- The keyed chunk ID of a plaintext, used by backup and restore. -/
def ChunkId.keyed (blake3 : Blake3) (key : ChunkIdKey) (content : Bytes) : ChunkId :=
  ⟨blake3.keyedHash key.raw content⟩

/-- BLAKE3 where every input hashed is empty and every key is zero. -/
def Blake3.onEmpty : Blake3 where
  hash _ := #v[0xaf, 0x13, 0x49, 0xb9, 0xf5, 0xf9, 0xa1, 0xa6, 0xa0, 0x40, 0x4d, 0xea,
    0x36, 0xdc, 0xc9, 0x49, 0x9b, 0xcb, 0x25, 0xc9, 0xad, 0xc1, 0x12, 0xb7,
    0xcc, 0x9a, 0x93, 0xca, 0xe4, 0x1f, 0x32, 0x62]
  keyedHash _ _ := #v[0xa7, 0xf9, 0x1c, 0xed, 0x05, 0x33, 0xc1, 0x2c, 0xd5, 0x97, 0x06, 0xf2,
    0xdc, 0x38, 0xc2, 0xa8, 0xc3, 0x9c, 0x00, 0x7a, 0xe8, 0x9a, 0xb6, 0x49,
    0x26, 0x98, 0x77, 0x8c, 0x86, 0x84, 0xc4, 0x83]

end Busyncr
