import Busyncr.Core.Hashing
import Busyncr.Store.Tables

/-!
Chunk blobs: the index entry in `CHUNKS` together with the object file
`objects/<first2hex>/<hex>`, which holds the hash of the blob followed by the
blob.

`write_object` is given here by its effect once the rename is done; the
single file steps are modelled where crashes between them matter.
-/

namespace Busyncr.Store

open Std

/-- The index database and the object files, by the chunk ID naming them. -/
structure Disk where
  tables : Tables
  objects : ExtTreeMap ChunkId Bytes

/-- A freshly created store. -/
def Disk.empty : Disk := ⟨.empty, ∅⟩

/-- Byte length of the hash in front of every object file. -/
def objectHeaderLen : Nat := 32

/-- The content of the object file of a blob. -/
def objectBytes (blake3 : Blake3) (data : Bytes) : Bytes := (blake3.hash data).toList ++ data

/-- The index entry of a newly stored blob. -/
def newEntry (data : Bytes) : IndexEntry :=
  { chunkLen := UInt64.ofNat data.length, refcount := 0 }

/-- The index change of a `put_chunk` that stored its blob. -/
def indexChunk (tables : Tables) (id : ChunkId) (data : Bytes) : Tables :=
  { tables with chunks := tables.chunks.insert id (newEntry data).toWireValue }

/-- Store a blob; `false` if the chunk was already present. -/
def putChunk (blake3 : Blake3) (disk : Disk) (id : ChunkId) (data : Bytes) : Bool × Disk :=
  if id ∈ disk.tables.chunks then
    (false, disk)
  else
    (true,
      { tables := indexChunk disk.tables id data
        objects := disk.objects.insert id (objectBytes blake3 data) })

/-- Load a blob, checking its length against the index and its hash against
the header. -/
def getChunk (blake3 : Blake3) (disk : Disk) (id : ChunkId) : Except StoreError Bytes :=
  match chunkEntry disk.tables.chunks id with
  | none => .error (.chunkNotFound id)
  | some entry =>
      match disk.objects[id]? with
      | none => .error (.integrity (.missingBlob id))
      | some raw =>
          if raw.length < objectHeaderLen then
            .error (.integrity (.lengthMismatch id entry.chunkLen
              (Saturating.sub (UInt64.ofNat raw.length) (UInt64.ofNat objectHeaderLen))))
          else
            let header := raw.take objectHeaderLen
            let data := raw.drop objectHeaderLen
            if UInt64.ofNat data.length ≠ entry.chunkLen then
              .error (.integrity (.lengthMismatch id entry.chunkLen (UInt64.ofNat data.length)))
            else if (blake3.hash data).toList ≠ header then
              .error (.integrity (.hashMismatch id ⟨blake3.hash data⟩))
            else
              .ok data

/-- The index transaction of `delete_chunk`; the blob is unlinked after it. -/
def deleteChunk (tables : Tables) (id : ChunkId) : Except StoreError Tables :=
  match chunkEntry tables.chunks id with
  | none => .error (.chunkNotFound id)
  | some entry =>
      if 0 < entry.refcount then .error (.stillReferenced id entry.refcount)
      else .ok { tables with chunks := tables.chunks.erase id }

/-- Whatever bytes were stored under an entry come back bit-exact. -/
theorem getChunk_of_stored {blake3 : Blake3} {disk : Disk} {id : ChunkId} {data : Bytes}
    {entry : IndexEntry} (indexed : chunkEntry disk.tables.chunks id = some entry)
    (recorded : entry.chunkLen = UInt64.ofNat data.length)
    (written : disk.objects[id]? = some (objectBytes blake3 data)) :
    getChunk blake3 disk id = .ok data := by
  have headerWidth : (blake3.hash data).toList.length = 32 := by simp
  have whole : ¬ (objectBytes blake3 data).length < objectHeaderLen := by
    simp [objectBytes, objectHeaderLen]
  have body : (objectBytes blake3 data).drop objectHeaderLen = data :=
    List.drop_left' headerWidth
  have header : (objectBytes blake3 data).take objectHeaderLen = (blake3.hash data).toList :=
    List.take_left' headerWidth
  simp only [getChunk, indexed, written, if_neg whole, body, header, recorded, ne_eq,
    not_true_eq_false, if_false]

/-- A blob is read exactly from its own object file, under an entry that
records its length. -/
theorem getChunk_eq_ok_iff {blake3 : Blake3} {disk : Disk} {id : ChunkId} {data : Bytes} :
    getChunk blake3 disk id = .ok data ↔
      (∃ entry, chunkEntry disk.tables.chunks id = some entry ∧
        entry.chunkLen = UInt64.ofNat data.length) ∧
      disk.objects[id]? = some (objectBytes blake3 data) := by
  constructor
  · intro loaded
    unfold getChunk at loaded
    cases found : chunkEntry disk.tables.chunks id with
    | none => simp [found] at loaded
    | some entry =>
        cases file : disk.objects[id]? with
        | none => simp [found, file] at loaded
        | some raw =>
            simp only [found, file] at loaded
            split at loaded
            next => cases loaded
            next whole =>
              split at loaded
              next => cases loaded
              next sized =>
                split at loaded
                next => cases loaded
                next hashed =>
                  cases loaded
                  refine ⟨⟨entry, rfl, (not_not.mp sized).symm⟩, ?_⟩
                  rw [objectBytes, not_not.mp hashed, List.take_append_drop]
  · rintro ⟨⟨entry, indexed, recorded⟩, written⟩
    exact getChunk_of_stored indexed recorded written

/-- What is read depends on the recorded length and on the file. -/
theorem getChunk_congr {blake3 : Blake3} {disk next : Disk} {id : ChunkId}
    (lengths : (chunkEntry next.tables.chunks id).map IndexEntry.chunkLen =
      (chunkEntry disk.tables.chunks id).map IndexEntry.chunkLen)
    (files : next.objects[id]? = disk.objects[id]?) :
    getChunk blake3 next id = getChunk blake3 disk id := by
  unfold getChunk
  rw [files]
  cases before : chunkEntry disk.tables.chunks id with
  | none =>
      have absent : chunkEntry next.tables.chunks id = none := by simpa [before] using lengths
      rw [absent]
  | some entry =>
      rw [before, Option.map_some, Option.map_eq_some_iff] at lengths
      obtain ⟨kept, found, sameLen⟩ := lengths
      simp only [found, sameLen]

/-- A missing blob is reported only for an indexed chunk without its file. -/
theorem getChunk_eq_missingBlob_iff {blake3 : Blake3} {disk : Disk} {id chunk : ChunkId} :
    getChunk blake3 disk id = .error (.integrity (.missingBlob chunk)) ↔
      id = chunk ∧ id ∈ disk.tables.chunks ∧ id ∉ disk.objects := by
  rw [mem_chunks_iff_chunkEntry, ExtTreeMap.mem_iff_isSome_getElem?]
  unfold getChunk
  cases chunkEntry disk.tables.chunks id with
  | none => simp
  | some entry =>
      cases disk.objects[id]? with
      | none => simp
      | some raw =>
          simp only
          split
          · simp
          · split
            · simp
            · split <;> simp

theorem deleteChunk_ok {tables result : Tables} {id : ChunkId}
    (deleted : deleteChunk tables id = .ok result) :
    ∃ entry, chunkEntry tables.chunks id = some entry ∧ entry.refcount.toNat = 0 ∧
      result = { tables with chunks := tables.chunks.erase id } := by
  unfold deleteChunk at deleted
  cases found : chunkEntry tables.chunks id with
  | none => simp [found] at deleted
  | some entry =>
      simp only [found] at deleted
      split at deleted
      next referenced => cases deleted
      next unreferenced =>
        cases deleted
        refine ⟨entry, rfl, ?_, rfl⟩
        simpa [UInt64.lt_iff_toNat_lt] using unreferenced

end Busyncr.Store
