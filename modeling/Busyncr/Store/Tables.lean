import Busyncr.Core.Index
import Busyncr.Lib.OrderedTable
import Busyncr.Lib.Saturating

/-!
The redb tables of the chunk store and the typed errors of its operations.

Keys are the 32-byte chunk IDs, the 16-byte ULIDs and the fixed metadata
names; values are kept as the raw bytes the daemon writes, and are decoded
exactly where the daemon decodes them.
-/

namespace Busyncr.Store

open Std

abbrev ChunkTable := ExtTreeMap ChunkId Bytes
abbrev MarkTable := ExtTreeMap ChunkId Bytes

/-- The tables of `index.redb`. -/
structure Tables where
  /-- Chunk ID to index entry (`CHUNKS`). -/
  chunks : ChunkTable
  /-- ULID to opaque manifest blob (`SNAPSHOTS`). -/
  snapshots : ExtTreeMap Ulid Bytes
  /-- ULID to concatenated chunk IDs (`SNAPSHOT_REFS`). -/
  snapshotRefs : ExtTreeMap Ulid Bytes
  /-- Chunk ID to the time it was first seen unreferenced (`GC_MARKS`). -/
  gcMarks : MarkTable
  /-- ULID to the enrolled client that shipped it (`SNAPSHOT_OWNER`). -/
  snapshotOwner : ExtTreeMap Ulid String
  /-- Last prune and last gc (`STATUS_META`). -/
  statusMeta : ExtTreeMap String Bytes
deriving DecidableEq

/-- The tables `ChunkStore::open` creates on first use. -/
def Tables.empty : Tables := ⟨∅, ∅, ∅, ∅, ∅, ∅⟩

/-- A stored chunk failed verification. -/
inductive IntegrityError where
  | hashMismatch (chunk actual : ChunkId)
  | lengthMismatch (chunk : ChunkId) (expected actual : UInt64)
  | missingBlob (chunk : ChunkId)
deriving DecidableEq

/-- Errors of the store operations. -/
inductive StoreError where
  | integrity (error : IntegrityError)
  | chunkNotFound (chunk : ChunkId)
  | snapshotNotFound (snapshot : Ulid)
  | snapshotExists (snapshot : Ulid)
  | unknownChunkRef (snapshot : Ulid) (chunk : ChunkId)
  | stillReferenced (chunk : ChunkId) (refcount : UInt64)
  | index
deriving DecidableEq

/-- Decode an index entry; a malformed width yields the zeroed entry. -/
def decodeEntry (raw : Bytes) : IndexEntry :=
  if raw.length = 16 then .fromWireValue raw else .fromWireValue (List.replicate 16 0)

/-- Decode a grace mark; a malformed width yields the epoch. -/
def decodeMark (raw : Bytes) : Int64 :=
  if raw.length = 8 then fromLeBytes raw else fromLeBytes (List.replicate 8 0)

/-- The index record of a chunk, if present. -/
def chunkEntry (chunks : ChunkTable) (id : ChunkId) : Option IndexEntry :=
  chunks[id]?.map decodeEntry

/-- Whether the store holds a chunk with this ID. -/
def hasChunk (tables : Tables) (id : ChunkId) : Bool := (chunkEntry tables.chunks id).isSome

/-- The grace mark of a chunk, if present. -/
def markOf (marks : MarkTable) (id : ChunkId) : Option Int64 :=
  marks[id]?.map decodeMark

@[simp]
theorem decodeEntry_toWireValue (entry : IndexEntry) :
    decodeEntry entry.toWireValue = entry := by
  have width : entry.toWireValue.length = 16 := entry.length_toWireValue
  simp [decodeEntry, width]

@[simp]
theorem decodeMark_toLeBytes (time : Int64) : decodeMark (toLeBytes time) = time := by
  simp [decodeMark]

theorem chunkEntry_insert (chunks : ChunkTable) (chunk id : ChunkId) (entry : IndexEntry) :
    chunkEntry (chunks.insert chunk entry.toWireValue) id =
      if chunk = id then some entry else chunkEntry chunks id := by
  unfold chunkEntry
  rw [OrderedTable.getElem?_insert_eq]
  split <;> simp

theorem chunkEntry_erase (chunks : ChunkTable) (chunk id : ChunkId) :
    chunkEntry (chunks.erase chunk) id =
      if chunk = id then none else chunkEntry chunks id := by
  unfold chunkEntry
  rw [OrderedTable.getElem?_erase_eq]
  split <;> simp

theorem mem_chunks_iff_chunkEntry {chunks : ChunkTable} {id : ChunkId} :
    id ∈ chunks ↔ ∃ entry, chunkEntry chunks id = some entry := by
  rw [ExtTreeMap.mem_iff_isSome_getElem?]
  unfold chunkEntry
  cases chunks[id]? <;> simp

theorem chunkEntry_eq_none_iff {chunks : ChunkTable} {id : ChunkId} :
    chunkEntry chunks id = none ↔ id ∉ chunks := by
  rw [mem_chunks_iff_chunkEntry]
  cases chunkEntry chunks id <;> simp

theorem hasChunk_iff {tables : Tables} {id : ChunkId} :
    hasChunk tables id = true ↔ id ∈ tables.chunks := by
  rw [mem_chunks_iff_chunkEntry, hasChunk, Option.isSome_iff_exists]

theorem mem_marks_iff_markOf {marks : MarkTable} {id : ChunkId} :
    id ∈ marks ↔ ∃ time, markOf marks id = some time := by
  rw [ExtTreeMap.mem_iff_isSome_getElem?]
  unfold markOf
  cases marks[id]? <;> simp

/-- Which control path produced a prune. -/
inductive PruneMode where
  | auto
  | manual
deriving DecidableEq

def PruneMode.toByte : PruneMode → UInt8
  | .auto => 0
  | .manual => 1

/-- The `last_prune` record: the time, then the mode's byte. -/
def encodePruneEvent (nowMs : Int64) (mode : PruneMode) : Bytes :=
  toLeBytes nowMs ++ [mode.toByte]

def lastPruneKey : String := "last_prune"

def lastGcKey : String := "last_gc"

end Busyncr.Store
