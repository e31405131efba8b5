import Busyncr.Store.Tables

/-!
The snapshot transactions: `put_snapshot_as`, `delete_snapshot` and the
reads of a snapshot.

Both reference loops read, change and write one index entry for each
occurrence.  `bumpRefs_ok` and `chunkEntry_dropRefs` say once what a whole
loop leaves in the index, by the number of occurrences of each ID.
-/

namespace Busyncr.Store

open Std

/-- The reference-taking loop of `put_snapshot_as`. -/
def bumpRefs (snapshot : Ulid) : List ChunkId → ChunkTable → Except StoreError ChunkTable
  | [], chunks => .ok chunks
  | chunk :: rest, chunks =>
      match chunkEntry chunks chunk with
      | none => .error (.unknownChunkRef snapshot chunk)
      | some entry =>
          let bumped : IndexEntry :=
            { chunkLen := entry.chunkLen, refcount := Saturating.add entry.refcount 1 }
          bumpRefs snapshot rest (chunks.insert chunk bumped.toWireValue)

/-- The reference-dropping loop of `delete_snapshot`; an ID that is not
indexed is skipped. -/
def dropRefs : List ChunkId → ChunkTable → ChunkTable
  | [], chunks => chunks
  | chunk :: rest, chunks =>
      match chunkEntry chunks chunk with
      | none => dropRefs rest chunks
      | some entry =>
          let dropped : IndexEntry :=
            { chunkLen := entry.chunkLen, refcount := Saturating.sub entry.refcount 1 }
          dropRefs rest (chunks.insert chunk dropped.toWireValue)

/-- The value stored in `SNAPSHOT_REFS`: the IDs one after another. -/
def encodeRefs (refs : List ChunkId) : Bytes := (refs.map ChunkId.asBytes).flatten

/-- The IDs read back from a `SNAPSHOT_REFS` value, in blocks of 32 bytes. -/
def decodeRefs (raw : Bytes) : List ChunkId :=
  (ByteCodec.exactBlocks 32 raw).filterMap ChunkId.fromSlice?

/-- The reference list `delete_snapshot` reads for a snapshot. -/
def Tables.refsOf (tables : Tables) (snapshot : Ulid) : List ChunkId :=
  decodeRefs (tables.snapshotRefs[snapshot]?.getD [])

/-- Record which enrolled client shipped a snapshot, when that is known. -/
def recordOwner (owners : ExtTreeMap Ulid String) (snapshot : Ulid) :
    Option String → ExtTreeMap Ulid String
  | some name => owners.insert snapshot name
  | none => owners

/-- Store a manifest blob with its references and its owner. -/
def putSnapshotAs (tables : Tables) (snapshot : Ulid) (blob : Bytes) (refs : List ChunkId)
    (owner : Option String) : Except StoreError Tables :=
  if snapshot ∈ tables.snapshots then
    .error (.snapshotExists snapshot)
  else
    match bumpRefs snapshot refs tables.chunks with
    | .error error => .error error
    | .ok chunks =>
        .ok { tables with
          chunks := chunks
          snapshotRefs := tables.snapshotRefs.insert snapshot (encodeRefs refs)
          snapshots := tables.snapshots.insert snapshot blob
          snapshotOwner := recordOwner tables.snapshotOwner snapshot owner }

/-- Remove a snapshot and drop one reference for each declared occurrence. -/
def deleteSnapshot (tables : Tables) (snapshot : Ulid) : Except StoreError Tables :=
  if snapshot ∈ tables.snapshots then
    .ok { tables with
      snapshots := tables.snapshots.erase snapshot
      snapshotOwner := tables.snapshotOwner.erase snapshot
      snapshotRefs := tables.snapshotRefs.erase snapshot
      chunks := dropRefs (tables.refsOf snapshot) tables.chunks }
  else
    .error (.snapshotNotFound snapshot)

/-- The raw manifest blob of a snapshot. -/
def getManifestBlob (tables : Tables) (snapshot : Ulid) : Except StoreError Bytes :=
  match tables.snapshots[snapshot]? with
  | some blob => .ok blob
  | none => .error (.snapshotNotFound snapshot)

/-- Stored snapshot IDs in ascending order. -/
def listSnapshots (tables : Tables) : List Ulid := tables.snapshots.keys

/-- Write the `last_prune` record. -/
def recordPrune (tables : Tables) (nowMs : Int64) (mode : PruneMode) : Tables :=
  { tables with
    statusMeta := tables.statusMeta.insert lastPruneKey (encodePruneEvent nowMs mode) }

@[simp]
theorem decodeRefs_encodeRefs (refs : List ChunkId) : decodeRefs (encodeRefs refs) = refs := by
  have uniform : ∀ block ∈ refs.map ChunkId.asBytes, block.length = 32 := by
    intro block membership
    rcases List.mem_map.mp membership with ⟨id, _, rfl⟩
    exact id.length_asBytes
  rw [decodeRefs, encodeRefs, ByteCodec.exactBlocks_flatten (by norm_num) _ uniform,
    List.filterMap_map]
  simp

theorem length_decodeRefs_le (raw : Bytes) : (decodeRefs raw).length ≤ raw.length :=
  (List.length_filterMap_le _ _).trans (ByteCodec.length_exactBlocks_le 32 raw)

/-- An entry after a number of saturating increments. -/
def bumpBy (count : Nat) (entry : IndexEntry) : IndexEntry :=
  { entry with refcount := UInt64.ofNat (min (entry.refcount.toNat + count) (2 ^ 64 - 1)) }

/-- An entry after a number of saturating decrements. -/
def dropBy (count : Nat) (entry : IndexEntry) : IndexEntry :=
  { entry with refcount := UInt64.ofNat (entry.refcount.toNat - count) }

@[simp]
theorem toNat_refcount_bumpBy (count : Nat) (entry : IndexEntry) :
    (bumpBy count entry).refcount.toNat =
      min (entry.refcount.toNat + count) (2 ^ 64 - 1) := by
  rw [bumpBy, UInt64.toNat_ofNat', Nat.mod_eq_of_lt]
  omega

@[simp]
theorem toNat_refcount_dropBy (count : Nat) (entry : IndexEntry) :
    (dropBy count entry).refcount.toNat = entry.refcount.toNat - count := by
  have bound := entry.refcount.toNat_lt
  rw [dropBy, UInt64.toNat_ofNat', Nat.mod_eq_of_lt]
  omega

theorem entry_ext {left right : IndexEntry} (lens : left.chunkLen = right.chunkLen)
    (counts : left.refcount.toNat = right.refcount.toNat) : left = right := by
  cases left
  cases right
  simp only [IndexEntry.mk.injEq]
  exact ⟨lens, UInt64.toNat_inj.mp counts⟩

@[simp]
theorem bumpBy_zero (entry : IndexEntry) : bumpBy 0 entry = entry := by
  have bound := entry.refcount.toNat_lt
  refine entry_ext rfl ?_
  rw [toNat_refcount_bumpBy]
  omega

@[simp]
theorem dropBy_zero (entry : IndexEntry) : dropBy 0 entry = entry :=
  entry_ext rfl (by simp)

theorem bumpBy_succ (count : Nat) (entry : IndexEntry) :
    bumpBy count { entry with refcount := Saturating.add entry.refcount 1 } =
      bumpBy (count + 1) entry := by
  refine entry_ext rfl ?_
  have one : (1 : UInt64).toNat = 1 := rfl
  simp only [toNat_refcount_bumpBy, Saturating.toNat_add, one]
  omega

theorem dropBy_succ (count : Nat) (entry : IndexEntry) :
    dropBy count { entry with refcount := Saturating.sub entry.refcount 1 } =
      dropBy (count + 1) entry := by
  refine entry_ext rfl ?_
  have one : (1 : UInt64).toNat = 1 := rfl
  simp only [toNat_refcount_dropBy, Saturating.toNat_sub, one]
  omega

/-- What a completed reference-taking loop did: every ID was indexed, and
each entry grew by the number of its occurrences. -/
theorem bumpRefs_ok {snapshot : Ulid} {refs : List ChunkId} {chunks result : ChunkTable}
    (taken : bumpRefs snapshot refs chunks = .ok result) :
    (∀ chunk ∈ refs, chunk ∈ chunks) ∧
      ∀ id, chunkEntry result id = (chunkEntry chunks id).map (bumpBy (refs.count id)) := by
  induction refs generalizing chunks with
  | nil =>
      cases taken
      refine ⟨by simp, fun id => ?_⟩
      cases found : chunkEntry result id <;> simp
  | cons chunk rest inductionHypothesis =>
      simp only [bumpRefs] at taken
      cases found : chunkEntry chunks chunk with
      | none => simp [found] at taken
      | some entry =>
          simp only [found] at taken
          rcases inductionHypothesis taken with ⟨restIndexed, restEntries⟩
          have chunkIndexed : chunk ∈ chunks := mem_chunks_iff_chunkEntry.mpr ⟨entry, found⟩
          constructor
          · intro other membership
            rcases List.mem_cons.mp membership with same | inRest
            · exact same ▸ chunkIndexed
            · rcases mem_chunks_iff_chunkEntry.mp (restIndexed other inRest) with
                ⟨updated, lookup⟩
              rw [chunkEntry_insert] at lookup
              by_cases same : chunk = other
              · exact same ▸ chunkIndexed
              · rw [if_neg same] at lookup
                exact mem_chunks_iff_chunkEntry.mpr ⟨updated, lookup⟩
          · intro id
            rw [restEntries, chunkEntry_insert]
            by_cases same : chunk = id
            · subst same
              simp [found, bumpBy_succ]
            · simp [same]

/-- The loop stops at the first ID that is not indexed. -/
theorem bumpRefs_error {snapshot : Ulid} {refs : List ChunkId} {chunks : ChunkTable}
    {error : StoreError} (refused : bumpRefs snapshot refs chunks = .error error) :
    ∃ before chunk after, refs = before ++ chunk :: after ∧
      (∀ earlier ∈ before, earlier ∈ chunks) ∧ chunk ∉ chunks ∧
      error = .unknownChunkRef snapshot chunk := by
  induction refs generalizing chunks with
  | nil => cases refused
  | cons chunk rest inductionHypothesis =>
      simp only [bumpRefs] at refused
      cases found : chunkEntry chunks chunk with
      | none =>
          simp only [found] at refused
          cases refused
          exact ⟨[], chunk, rest, rfl, by simp, chunkEntry_eq_none_iff.mp found, rfl⟩
      | some entry =>
          simp only [found] at refused
          have chunkIndexed : chunk ∈ chunks := mem_chunks_iff_chunkEntry.mpr ⟨entry, found⟩
          rcases inductionHypothesis refused with
            ⟨before, missing, after, split, earlierIndexed, notIndexed, named⟩
          have same_keys : ∀ id, id ∈ chunks.insert chunk
              (IndexEntry.toWireValue { entry with refcount := Saturating.add entry.refcount 1 }) ↔
                id ∈ chunks := by
            intro id
            rw [ExtTreeMap.mem_insert, LawfulEqOrd.compare_eq_iff_eq]
            constructor
            · rintro (same | indexed)
              · exact same ▸ chunkIndexed
              · exact indexed
            · exact .inr
          refine ⟨chunk :: before, missing, after, by simp [split], ?_, ?_, named⟩
          · intro earlier membership
            rcases List.mem_cons.mp membership with same | inBefore
            · exact same ▸ chunkIndexed
            · exact (same_keys earlier).mp (earlierIndexed earlier inBefore)
          · exact fun indexed => notIndexed ((same_keys missing).mpr indexed)

/-- What the reference-dropping loop does to each entry. -/
theorem chunkEntry_dropRefs (refs : List ChunkId) (chunks : ChunkTable) (id : ChunkId) :
    chunkEntry (dropRefs refs chunks) id =
      (chunkEntry chunks id).map (dropBy (refs.count id)) := by
  induction refs generalizing chunks with
  | nil => cases found : chunkEntry chunks id <;> simp [dropRefs, found]
  | cons chunk rest inductionHypothesis =>
      simp only [dropRefs]
      cases found : chunkEntry chunks chunk with
      | none =>
          simp only [inductionHypothesis]
          by_cases same : chunk = id
          · subst same
            simp [found]
          · simp [same]
      | some entry =>
          simp only [inductionHypothesis, chunkEntry_insert]
          by_cases same : chunk = id
          · subst same
            simp [found, dropBy_succ]
          · simp [same]

/-- The loop neither adds nor removes index keys. -/
theorem mem_dropRefs_iff (refs : List ChunkId) (chunks : ChunkTable) (id : ChunkId) :
    id ∈ dropRefs refs chunks ↔ id ∈ chunks := by
  rw [mem_chunks_iff_chunkEntry, mem_chunks_iff_chunkEntry, chunkEntry_dropRefs]
  cases chunkEntry chunks id <;> simp

end Busyncr.Store
