import Busyncr.Lib.Transition
import Busyncr.Store.Contents
import Busyncr.Store.Marks

/-!
The disk holds what `Contents` says, after every run of operations that the
storage below has room for.

The counts stand for the references of the live snapshots (`RefcountExact`),
so what the store decides by a count the contents decide by the references.
-/

namespace Busyncr.Store

open Std

/-- The bytes a disk takes up at least. -/
def diskBytes (disk : Disk) : Nat :=
  Crash.refBytes disk.tables + 16 * disk.tables.snapshots.size + 32 * disk.tables.chunks.size +
    OrderedTable.total List.length disk.objects

/-- The database and the file system below the store.  Both are addressed by
64-bit offsets, and an operation that needs more ends with an I/O error. -/
structure Storage where
  accepts : Disk → Bool
  addressable : ∀ disk, accepts disk = true → diskBytes disk < 2 ^ 64

/-- An operation that ends without an I/O error. -/
def operate (storage : Storage) (blake3 : Blake3) (disk : Disk) (operation : Operation) :
    Option Disk :=
  if storage.accepts (operation.run blake3 disk).2 then some (operation.run blake3 disk).2
  else none

/-- The disk holds the contents. -/
structure Represents (blake3 : Blake3) (disk : Disk) (contents : Contents) : Prop where
  fetched : ∀ id, getChunk blake3 disk id = contents.getChunk id
  snapshots : ∀ snapshot : Ulid,
    disk.tables.snapshots[snapshot]? = contents.live[snapshot]?.map Shipped.blob
  refs : ∀ snapshot : Ulid, disk.tables.snapshotRefs[snapshot]? =
    contents.live[snapshot]?.map fun shipped => encodeRefs shipped.refs
  owners : ∀ snapshot : Ulid,
    disk.tables.snapshotOwner[snapshot]? = contents.live[snapshot]?.bind Shipped.owner
  marks : ∀ id : ChunkId, markOf disk.tables.gcMarks id = contents.marks[id]?
  lastPrune : disk.tables.statusMeta[lastPruneKey]? =
    contents.lastPrune.map fun event => encodePruneEvent event.atMs event.mode
  lastGc : disk.tables.statusMeta[lastGcKey]? =
    contents.lastGc.map fun event => toLeBytes event.atMs
  exact : RefcountExact disk.tables

section Reading

variable {blake3 : Blake3} {disk next : Disk} {contents : Contents}

theorem getChunk_eq_chunkNotFound_iff {id : ChunkId} :
    getChunk blake3 disk id = .error (.chunkNotFound id) ↔ id ∉ disk.tables.chunks := by
  rw [← chunkEntry_eq_none_iff]
  unfold getChunk
  cases chunkEntry disk.tables.chunks id with
  | none => simp
  | some entry =>
      cases disk.objects[id]? with
      | none => simp
      | some raw =>
          simp only
          split
          · simp
          · split
            · simp
            · split <;> simp

theorem Contents.getChunk_eq_ok_iff {id : ChunkId} {data : Bytes} :
    contents.getChunk id = .ok data ↔ contents.blobs[id]? = some data := by
  unfold Contents.getChunk
  cases contents.blobs[id]? <;> simp

theorem Contents.getChunk_eq_error_iff {id : ChunkId} :
    contents.getChunk id = .error (.chunkNotFound id) ↔ id ∉ contents.blobs := by
  rw [ExtTreeMap.mem_iff_isSome_getElem?]
  unfold Contents.getChunk
  cases contents.blobs[id]? <;> simp

theorem Represents.mem_blobs_iff (represents : Represents blake3 disk contents) {id : ChunkId} :
    id ∈ contents.blobs ↔ id ∈ disk.tables.chunks := by
  rw [← not_iff_not, ← Contents.getChunk_eq_error_iff, ← represents.fetched,
    getChunk_eq_chunkNotFound_iff]

/-- The index records the length of every blob. -/
theorem Represents.chunkLen_eq (represents : Represents blake3 disk contents) {id : ChunkId}
    {entry : IndexEntry} (found : chunkEntry disk.tables.chunks id = some entry) {data : Bytes}
    (held : contents.blobs[id]? = some data) : entry.chunkLen = UInt64.ofNat data.length := by
  have loaded := (represents.fetched id).trans (Contents.getChunk_eq_ok_iff.mpr held)
  obtain ⟨⟨indexed, same, recorded⟩, -⟩ := Store.getChunk_eq_ok_iff.mp loaded
  rw [found, Option.some.injEq] at same
  rw [same, recorded]

theorem Represents.mem_live_iff (represents : Represents blake3 disk contents)
    {snapshot : Ulid} : snapshot ∈ contents.live ↔ snapshot ∈ disk.tables.snapshots := by
  rw [ExtTreeMap.mem_iff_isSome_getElem?, ExtTreeMap.mem_iff_isSome_getElem?,
    represents.snapshots, Option.isSome_map]

theorem Represents.keys_eq (represents : Represents blake3 disk contents) :
    contents.live.keys = listSnapshots disk.tables := by
  have same : disk.tables.snapshots = contents.live.map fun _ => Shipped.blob := by
    apply ExtTreeMap.ext_getElem?
    intro snapshot
    rw [ExtTreeMap.getElem?_map, represents.snapshots]
  rw [listSnapshots, same, ExtTreeMap.keys_map]

theorem Represents.refsOf_eq (represents : Represents blake3 disk contents) (snapshot : Ulid) :
    disk.tables.refsOf snapshot = contents.refsOf snapshot := by
  rw [Tables.refsOf, Contents.refsOf, represents.refs]
  cases contents.live[snapshot]? with
  | none => rfl
  | some shipped => simp

theorem Represents.liveRefs_eq (represents : Represents blake3 disk contents) :
    liveRefs disk.tables = contents.references := by
  rw [liveRefs, Contents.references, represents.keys_eq, listSnapshots]
  exact List.flatMap_congr fun snapshot _ => represents.refsOf_eq snapshot

theorem Represents.refcount_eq (represents : Represents blake3 disk contents) {id : ChunkId}
    {entry : IndexEntry} (found : chunkEntry disk.tables.chunks id = some entry) :
    entry.refcount.toNat = contents.references.count id := by
  rw [represents.exact.counted id entry found, represents.liveRefs_eq]

/-- A count is zero for the chunks no live snapshot refers to. -/
theorem Represents.refcount_eq_zero_iff (represents : Represents blake3 disk contents)
    {id : ChunkId} {entry : IndexEntry} (found : chunkEntry disk.tables.chunks id = some entry) :
    entry.refcount = 0 ↔ id ∉ contents.references := by
  rw [← UInt64.toNat_inj, represents.refcount_eq found, UInt64.toNat_zero, List.count_eq_zero]

theorem Represents.mem_unreferenced_iff (represents : Represents blake3 disk contents)
    {id : ChunkId} : id ∈ contents.unreferenced ↔ id ∈ zeroRefChunks disk.tables := by
  rw [Contents.mem_unreferenced_iff, mem_zeroRefChunks_iff, represents.mem_blobs_iff,
    mem_chunks_iff_chunkEntry]
  constructor
  · rintro ⟨⟨entry, found⟩, unlisted⟩
    exact ⟨entry, found, (represents.refcount_eq_zero_iff found).mpr unlisted⟩
  · rintro ⟨entry, found, zero⟩
    exact ⟨⟨entry, found⟩, (represents.refcount_eq_zero_iff found).mp zero⟩

theorem Represents.perm_zeroRefChunks (represents : Represents blake3 disk contents) :
    (zeroRefChunks disk.tables).Perm contents.unreferenced :=
  (List.perm_ext_iff_of_nodup (nodup_zeroRefChunks _) contents.nodup_unreferenced).mpr
    fun _ => represents.mem_unreferenced_iff.symm

theorem represents_empty : Represents blake3 .empty .empty where
  fetched id := by
    simp [getChunk, Contents.getChunk, Disk.empty, Tables.empty, Contents.empty, chunkEntry]
  snapshots snapshot := by simp [Disk.empty, Tables.empty, Contents.empty]
  refs snapshot := by simp [Disk.empty, Tables.empty, Contents.empty]
  owners snapshot := by simp [Disk.empty, Tables.empty, Contents.empty]
  marks id := by simp [Disk.empty, Tables.empty, Contents.empty, markOf]
  lastPrune := by simp [Disk.empty, Tables.empty, Contents.empty]
  lastGc := by simp [Disk.empty, Tables.empty, Contents.empty]
  exact := refcountExact_empty

end Reading

section Steps

variable {blake3 : Blake3} {disk : Disk} {contents : Contents}

/-- What is fetched stays while the recorded lengths and the files do. -/
theorem Represents.fetched_congr (represents : Represents blake3 disk contents) {next : Disk}
    {id : ChunkId}
    (lengths : (chunkEntry next.tables.chunks id).map IndexEntry.chunkLen =
      (chunkEntry disk.tables.chunks id).map IndexEntry.chunkLen)
    (files : next.objects[id]? = disk.objects[id]?) :
    getChunk blake3 next id = contents.getChunk id :=
  (getChunk_congr lengths files).trans (represents.fetched id)

theorem Represents.putChunk (represents : Represents blake3 disk contents) (id : ChunkId)
    (data : Bytes) :
    ((Operation.putChunk id data).run blake3 disk).1 =
        (contents.perform (.putChunk id data)).1 ∧
      Represents blake3 ((Operation.putChunk id data).run blake3 disk).2
        (contents.perform (.putChunk id data)).2 := by
  simp only [Operation.run, Contents.perform, Store.putChunk, represents.mem_blobs_iff]
  split
  next occupied => exact ⟨rfl, represents⟩
  next fresh =>
    refine ⟨rfl, ?_, represents.snapshots, represents.refs, represents.owners, represents.marks,
      represents.lastPrune, represents.lastGc, represents.exact.putChunk id data fresh⟩
    intro other
    by_cases same : id = other
    · subst same
      have loaded : getChunk blake3 ⟨indexChunk disk.tables id data,
          disk.objects.insert id (objectBytes blake3 data)⟩ id = .ok data := by
        have indexed : chunkEntry (indexChunk disk.tables id data).chunks id =
            some (newEntry data) := by
          simp [indexChunk, chunkEntry_insert]
        exact getChunk_of_stored indexed rfl (by simp)
      rw [loaded]
      simp [Contents.getChunk]
    · have held : (contents.blobs.insert id data)[other]? = contents.blobs[other]? := by
        rw [OrderedTable.getElem?_insert_eq, if_neg same]
      simp only [Contents.getChunk, held]
      apply represents.fetched_congr
      · simp [indexChunk, chunkEntry_insert, same]
      · rw [OrderedTable.getElem?_insert_eq, if_neg same]

theorem Represents.find?_missing (represents : Represents blake3 disk contents)
    (snapshot : Ulid) (refs : List ChunkId) :
    (∀ chunks, bumpRefs snapshot refs disk.tables.chunks = .ok chunks →
      (refs.find? fun id => id ∉ contents.blobs) = none) ∧
    ∀ error, bumpRefs snapshot refs disk.tables.chunks = .error error →
      ∃ chunk, (refs.find? fun id => id ∉ contents.blobs) = some chunk ∧
        error = .unknownChunkRef snapshot chunk := by
  constructor
  · intro chunks taken
    rw [List.find?_eq_none]
    intro id listed
    simpa [represents.mem_blobs_iff] using (bumpRefs_ok taken).1 id listed
  · intro error refused
    obtain ⟨before, chunk, after, rfl, indexed, missing, named⟩ := bumpRefs_error refused
    refine ⟨chunk, ?_, named⟩
    rw [List.find?_append, List.find?_eq_none.mpr, Option.none_or, List.find?_cons_of_pos]
    · simpa [represents.mem_blobs_iff] using missing
    · intro id listed
      simpa [represents.mem_blobs_iff] using indexed id listed

theorem Represents.putSnapshotAs (represents : Represents blake3 disk contents)
    (snapshot : Ulid) (blob : Bytes) (refs : List ChunkId) (owner : Option String)
    (fits : (liveRefs ((Operation.putSnapshotAs snapshot blob refs owner).run
      blake3 disk).2.tables).length < 2 ^ 64) :
    ((Operation.putSnapshotAs snapshot blob refs owner).run blake3 disk).1 =
        (contents.perform (.putSnapshotAs snapshot blob refs owner)).1 ∧
      Represents blake3 ((Operation.putSnapshotAs snapshot blob refs owner).run blake3 disk).2
        (contents.perform (.putSnapshotAs snapshot blob refs owner)).2 := by
  simp only [Operation.run, Contents.perform, represents.mem_live_iff] at fits ⊢
  by_cases occupied : snapshot ∈ disk.tables.snapshots
  · have refused : Store.putSnapshotAs disk.tables snapshot blob refs owner =
        .error (.snapshotExists snapshot) := if_pos occupied
    rw [refused, if_pos occupied]
    exact ⟨rfl, represents⟩
  · rw [if_neg occupied]
    obtain ⟨complete, missing⟩ := represents.find?_missing snapshot refs
    cases taken : bumpRefs snapshot refs disk.tables.chunks with
    | error error =>
        obtain ⟨chunk, first, rfl⟩ := missing error taken
        have refused : Store.putSnapshotAs disk.tables snapshot blob refs owner =
            .error (.unknownChunkRef snapshot chunk) := by
          simp only [Store.putSnapshotAs, if_neg occupied, taken]
        rw [refused, first]
        exact ⟨rfl, represents⟩
    | ok chunks =>
        obtain ⟨next, stored⟩ : ∃ next,
            Store.putSnapshotAs disk.tables snapshot blob refs owner = .ok next := by
          simp only [Store.putSnapshotAs, if_neg occupied, taken]
          exact ⟨_, rfl⟩
        rw [stored] at fits ⊢
        rw [complete chunks taken]
        have counted := represents.exact.putSnapshotAs stored fits
        obtain ⟨-, _, again, rfl⟩ := putSnapshotAs_ok stored
        obtain rfl := Except.ok.inj (taken.symm.trans again)
        refine ⟨rfl, ?_, ?_, ?_, ?_, represents.marks, represents.lastPrune, represents.lastGc,
          counted⟩
        · intro id
          apply represents.fetched_congr
          · simp [finish, (bumpRefs_ok taken).2, Option.map_map, Function.comp_def, bumpBy]
          · rfl
        · intro other
          simp only [finish, OrderedTable.getElem?_insert_eq, represents.snapshots]
          split <;> rfl
        · intro other
          simp only [finish, OrderedTable.getElem?_insert_eq, represents.refs]
          split <;> rfl
        · intro other
          have unowned : disk.tables.snapshotOwner[snapshot]? = none := by
            rw [represents.owners, ExtTreeMap.getElem?_eq_none, Option.bind_none]
            rwa [represents.mem_live_iff]
          cases owner with
          | none =>
              simp only [finish, recordOwner, OrderedTable.getElem?_insert_eq]
              split
              next same => simpa [← same] using unowned
              next => exact represents.owners other
          | some name =>
              simp only [finish, recordOwner, OrderedTable.getElem?_insert_eq, represents.owners]
              split <;> rfl

theorem Represents.deleteSnapshot (represents : Represents blake3 disk contents)
    (snapshot : Ulid) :
    ((Operation.deleteSnapshot snapshot).run blake3 disk).1 =
        (contents.perform (.deleteSnapshot snapshot)).1 ∧
      Represents blake3 ((Operation.deleteSnapshot snapshot).run blake3 disk).2
        (contents.perform (.deleteSnapshot snapshot)).2 := by
  simp only [Operation.run, Contents.perform, represents.mem_live_iff]
  by_cases live : snapshot ∈ disk.tables.snapshots
  · obtain ⟨next, deleted⟩ : ∃ next, Store.deleteSnapshot disk.tables snapshot = .ok next :=
      ⟨_, if_pos live⟩
    rw [deleted, if_pos live]
    have counted := represents.exact.deleteSnapshot deleted
    obtain ⟨-, rfl⟩ := deleteSnapshot_ok deleted
    refine ⟨rfl, ?_, ?_, ?_, ?_, represents.marks, represents.lastPrune, represents.lastGc,
      counted⟩
    · intro id
      apply represents.fetched_congr
      · simp [finish, chunkEntry_dropRefs, Option.map_map, Function.comp_def, dropBy]
      · rfl
    · intro other
      simp only [finish, OrderedTable.getElem?_erase_eq, represents.snapshots]
      split <;> rfl
    · intro other
      simp only [finish, OrderedTable.getElem?_erase_eq, represents.refs]
      split <;> rfl
    · intro other
      simp only [finish, OrderedTable.getElem?_erase_eq, represents.owners]
      split <;> rfl
  · have refused : Store.deleteSnapshot disk.tables snapshot =
        .error (.snapshotNotFound snapshot) := if_neg live
    rw [refused, if_neg live]
    exact ⟨rfl, represents⟩

theorem Represents.deleteChunk (represents : Represents blake3 disk contents) (id : ChunkId) :
    ((Operation.deleteChunk id).run blake3 disk).1 = (contents.perform (.deleteChunk id)).1 ∧
      Represents blake3 ((Operation.deleteChunk id).run blake3 disk).2
        (contents.perform (.deleteChunk id)).2 := by
  simp only [Operation.run, Contents.perform, represents.mem_blobs_iff]
  cases found : chunkEntry disk.tables.chunks id with
  | none =>
      have refused : Store.deleteChunk disk.tables id = .error (.chunkNotFound id) := by
        simp only [Store.deleteChunk, found]
      rw [refused, if_pos (chunkEntry_eq_none_iff.mp found)]
      exact ⟨rfl, represents⟩
  | some entry =>
      rw [if_neg (not_not.mpr (mem_chunks_iff_chunkEntry.mpr ⟨entry, found⟩))]
      by_cases listed : id ∈ contents.references
      · have positive : 0 < entry.refcount := by
          rw [UInt64.lt_iff_toNat_lt, represents.refcount_eq found]
          exact List.count_pos_iff.mpr listed
        have refused : Store.deleteChunk disk.tables id =
            .error (.stillReferenced id entry.refcount) := by
          simp only [Store.deleteChunk, found, if_pos positive]
        rw [refused, if_pos listed, ← represents.refcount_eq found, UInt64.ofNat_toNat]
        exact ⟨rfl, represents⟩
      · have zero : ¬ 0 < entry.refcount := by
          rw [(represents.refcount_eq_zero_iff found).mpr listed]
          decide
        have deleted : Store.deleteChunk disk.tables id =
            .ok { disk.tables with chunks := disk.tables.chunks.erase id } := by
          simp only [Store.deleteChunk, found, if_neg zero]
        rw [deleted, if_neg listed]
        refine ⟨rfl, ?_, represents.snapshots, represents.refs, represents.owners,
          represents.marks, represents.lastPrune, represents.lastGc,
          represents.exact.deleteChunk deleted⟩
        intro other
        by_cases same : id = other
        · subst same
          have gone : getChunk blake3 ⟨{ disk.tables with chunks := disk.tables.chunks.erase id },
              disk.objects.erase id⟩ id = .error (.chunkNotFound id) := by
            rw [getChunk_eq_chunkNotFound_iff]
            simp
          rw [finish, gone, eq_comm, Contents.getChunk_eq_error_iff]
          simp
        · have held : (contents.blobs.erase id)[other]? = contents.blobs[other]? := by
            rw [OrderedTable.getElem?_erase_eq, if_neg same]
          simp only [Contents.getChunk, held]
          apply represents.fetched_congr
          · simp [finish, chunkEntry_erase, same]
          · simp only [finish, OrderedTable.getElem?_erase_eq, if_neg same]

theorem statusMeta_deleteAll (tables : Tables) (drop : List Ulid) :
    (deleteAll tables drop).statusMeta = tables.statusMeta ∧
      (deleteAll tables drop).gcMarks = tables.gcMarks := by
  induction drop generalizing tables with
  | nil => exact ⟨rfl, rfl⟩
  | cons snapshot rest inductionHypothesis =>
      obtain ⟨status, marks⟩ :=
        inductionHypothesis ((Transaction.deleteSnapshot snapshot).commit tables)
      refine ⟨status.trans ?_, marks.trans ?_⟩
      · apply Transaction.commit_cases (fun next => next.statusMeta = tables.statusMeta) rfl
        intro next deleted
        obtain ⟨-, rfl⟩ := deleteSnapshot_ok deleted
        rfl
      · exact gcMarks_commit (by simp)

theorem Represents.prune (represents : Represents blake3 disk contents) (nowMs : Int64)
    (policy : Retention.RetentionPolicy) (mode : PruneMode) :
    ((Operation.prune nowMs policy mode).run blake3 disk).1 =
        (contents.perform (.prune nowMs policy mode)).1 ∧
      Represents blake3 ((Operation.prune nowMs policy mode).run blake3 disk).2
        (contents.perform (.prune nowMs policy mode)).2 := by
  have deleted := deleted_prune disk.tables nowMs policy mode
  have dropped : (Store.prune disk.tables nowMs policy mode).1.dropped =
      (prunePlan nowMs policy contents.live.keys).drop := by
    rw [represents.keys_eq]
    rfl
  have counted : RefcountExact (Store.prune disk.tables nowMs policy mode).2 := by
    apply prune_invariant RefcountExact _ _ represents.exact
    · intro current snapshot _ exact
      apply Transaction.commit_cases RefcountExact exact
      intro next outcome
      exact exact.deleteSnapshot outcome
    · intro current exact
      exact exact.of_chunks rfl rfl rfl (fun _ _ found => .inl found)
        fun id entry found _ => mem_chunks_iff_chunkEntry.mpr ⟨entry, found⟩
  obtain ⟨status, marks⟩ := statusMeta_deleteAll disk.tables
    (prunePlan nowMs policy (listSnapshots disk.tables)).drop
  rw [dropped] at deleted
  simp only [Operation.run, Contents.perform]
  refine ⟨?_, ?_, ?_, ?_, ?_, ?_, ?_, ?_, counted⟩
  · rw [represents.keys_eq]
    rfl
  · intro id
    apply represents.fetched_congr
    · simp [deleted.chunks, Option.map_map, Function.comp_def, dropBy]
    · rfl
  · intro snapshot
    simp only [deleted.snapshots, OrderedTable.getElem?_eraseAll, represents.snapshots]
    split <;> rfl
  · intro snapshot
    simp only [deleted.snapshotRefs, OrderedTable.getElem?_eraseAll, represents.refs]
    split <;> rfl
  · intro snapshot
    simp only [deleted.snapshotOwner, OrderedTable.getElem?_eraseAll, represents.owners]
    split <;> rfl
  · intro id
    rw [prune_snd, recordPrune, marks]
    exact represents.marks id
  · rw [prune_snd, recordPrune]
    simp
  · have other : lastPruneKey ≠ lastGcKey := by decide
    rw [prune_snd, recordPrune, status, OrderedTable.getElem?_insert_eq, if_neg other]
    exact represents.lastGc

theorem Represents.expired_iff (represents : Represents blake3 disk contents) (nowMs : Int64)
    (grace : Duration) (id : ChunkId) :
    Store.Expired disk.tables nowMs grace id ↔ contents.Expired nowMs grace id := by
  have elapsed (markedAt : Int64) : graceMillis grace ≤ Saturating.signedSub nowMs markedAt ↔
      markedAt.toInt + min (grace.asMillis : Int) (2 ^ 63 - 1) ≤ nowMs.toInt := by
    rw [Int64.le_iff_toInt_le, toInt_graceMillis, Saturating.le_toInt_signedSub_iff] <;> omega
  rw [Contents.Expired, represents.mem_unreferenced_iff, mem_zeroRefChunks_iff]
  constructor
  · rintro ⟨entry, markedAt, found, zero, marked, waited⟩
    exact ⟨⟨entry, found, zero⟩, markedAt, (represents.marks id).symm.trans marked,
      (elapsed markedAt).mp waited⟩
  · rintro ⟨⟨entry, found, zero⟩, markedAt, marked, waited⟩
    exact ⟨entry, markedAt, found, zero, (represents.marks id).trans marked,
      (elapsed markedAt).mpr waited⟩

theorem Contents.mem_blobs_swept_iff {nowMs : Int64} {grace : Duration} {id : ChunkId} :
    id ∈ (contents.swept nowMs grace).blobs ↔
      id ∈ contents.blobs ∧ ¬ contents.Expired nowMs grace id := by
  rw [Contents.swept, ExtTreeMap.mem_iff_isSome_getElem?, OrderedTable.getElem?_eraseAll,
    ExtTreeMap.mem_iff_isSome_getElem?]
  simp only [Contents.mem_expired_iff]
  split <;> simp_all

theorem Contents.mem_unreferenced_swept_iff {nowMs : Int64} {grace : Duration} {id : ChunkId} :
    id ∈ (contents.swept nowMs grace).unreferenced ↔
      id ∈ contents.unreferenced ∧ ¬ contents.Expired nowMs grace id := by
  have same : (contents.swept nowMs grace).references = contents.references := rfl
  rw [Contents.mem_unreferenced_iff, Contents.mem_unreferenced_iff, same,
    Contents.mem_blobs_swept_iff]
  tauto

theorem Represents.mem_zeroRefChunks_gc (represents : Represents blake3 disk contents)
    (nowMs : Int64) (grace : Duration) {id : ChunkId} :
    id ∈ zeroRefChunks (Store.gc disk.tables nowMs grace).tables ↔
      id ∈ (contents.swept nowMs grace).unreferenced := by
  rw [Contents.mem_unreferenced_swept_iff, represents.mem_unreferenced_iff,
    ← represents.expired_iff, mem_zeroRefChunks_iff, mem_zeroRefChunks_iff, chunkEntry_gc]
  split
  next gone => simp [gone]
  next stays => simp [stays]

/-- A marked chunk is unreferenced, and its mark is the first one. -/
theorem Contents.marked_eq_some_iff {nowMs time : Int64} {id : ChunkId} :
    (contents.marked nowMs)[id]? = some time ↔
      id ∈ contents.unreferenced ∧ time = contents.marks[id]?.getD nowMs := by
  rw [Contents.marked, ExtTreeMap.getElem?_filterMap', Contents.mem_unreferenced_iff,
    ExtTreeMap.mem_iff_isSome_getElem?]
  cases contents.blobs[id]? with
  | none => simp
  | some data =>
      by_cases listed : id ∈ contents.references
      · simp [listed]
      · simp [listed, eq_comm]

theorem Represents.indexedLen_eq (represents : Represents blake3 disk contents) (id : ChunkId) :
    UInt64.ofNat (indexedLen disk.tables id) =
      UInt64.ofNat ((contents.blobs[id]?.map List.length).getD 0) := by
  unfold indexedLen
  cases found : chunkEntry disk.tables.chunks id with
  | none =>
      have absent : id ∉ contents.blobs := by
        rw [represents.mem_blobs_iff]
        exact chunkEntry_eq_none_iff.mp found
      rw [ExtTreeMap.getElem?_eq_none absent]
      rfl
  | some entry =>
      obtain ⟨data, held⟩ : ∃ data, contents.blobs[id]? = some data := by
        rw [← Option.isSome_iff_exists, ← ExtTreeMap.mem_iff_isSome_getElem?,
          represents.mem_blobs_iff]
        exact mem_chunks_iff_chunkEntry.mpr ⟨entry, found⟩
      rw [held, Option.map_some, Option.map_some, Option.getD_some, Option.getD_some,
        UInt64.ofNat_toNat, represents.chunkLen_eq found held]

/-- The lengths of the index add up to those of the blobs. -/
theorem Represents.sum_indexedLen (represents : Represents blake3 disk contents)
    (ids : List ChunkId) :
    UInt64.ofNat ((ids.map (indexedLen disk.tables)).sum) =
      UInt64.ofNat (contents.bytesOf ids) := by
  unfold Contents.bytesOf
  induction ids with
  | nil => rfl
  | cons id rest inductionHypothesis =>
      rw [List.map_cons, List.map_cons, List.sum_cons, List.sum_cons, UInt64.ofNat_add,
        UInt64.ofNat_add, inductionHypothesis, represents.indexedLen_eq]

theorem Represents.gc (represents : Represents blake3 disk contents) (nowMs : Int64)
    (grace : Duration) :
    ((Operation.gc nowMs grace).run blake3 disk).1 = (contents.perform (.gc nowMs grace)).1 ∧
      Represents blake3 ((Operation.gc nowMs grace).run blake3 disk).2
        (contents.perform (.gc nowMs grace)).2 := by
  have meets := gc_meets disk.tables nowMs grace
  have reclaimed (id : ChunkId) :
      id ∈ (Store.gc disk.tables nowMs grace).outcome.reclaimed ↔
        id ∈ contents.expired nowMs grace := by
    rw [meets.reclaimed, represents.expired_iff, Contents.mem_expired_iff]
  have permuted : (Store.gc disk.tables nowMs grace).outcome.reclaimed.Perm
      (contents.expired nowMs grace) :=
    (List.perm_ext_iff_of_nodup meets.once (contents.nodup_expired nowMs grace)).mpr reclaimed
  have waiting : (zeroRefChunks (Store.gc disk.tables nowMs grace).tables).Perm
      (contents.swept nowMs grace).unreferenced :=
    (List.perm_ext_iff_of_nodup (nodup_zeroRefChunks _) (Contents.nodup_unreferenced _)).mpr
      fun _ => represents.mem_zeroRefChunks_gc nowMs grace
  simp only [Operation.run, Contents.perform]
  refine ⟨?_, ?_, represents.snapshots, represents.refs, represents.owners, ?_, ?_, ?_,
    represents.exact.gc nowMs grace⟩
  · have bytes : (Store.gc disk.tables nowMs grace).outcome.bytesReclaimed =
        UInt64.ofNat (contents.bytesOf (contents.expired nowMs grace)) := by
      rw [meets.bytesReclaimed, represents.sum_indexedLen]
      exact congrArg UInt64.ofNat (permuted.map _).sum_nat
    rw [List.toFinset_eq_of_perm _ _ permuted, bytes, meets.pending, waiting.length_eq]
  · intro id
    by_cases gone : contents.Expired nowMs grace id
    · have unindexed : id ∉ (Store.gc disk.tables nowMs grace).tables.chunks := by
        rw [← chunkEntry_eq_none_iff, chunkEntry_gc, if_pos]
        exact (represents.expired_iff nowMs grace id).mpr gone
      rw [getChunk_eq_chunkNotFound_iff.mpr unindexed, eq_comm, Contents.getChunk_eq_error_iff,
        Contents.mem_blobs_swept_iff]
      tauto
    · have stays : id ∉ contents.expired nowMs grace := by
        rwa [Contents.mem_expired_iff]
      have held : (contents.swept nowMs grace).blobs[id]? = contents.blobs[id]? := by
        rw [Contents.swept, OrderedTable.getElem?_eraseAll, if_neg stays]
      simp only [Contents.getChunk, held]
      apply represents.fetched_congr
      · rw [chunkEntry_gc, if_neg]
        rwa [represents.expired_iff]
      · rw [OrderedTable.getElem?_eraseAll, if_neg]
        rwa [reclaimed]
  · intro id
    apply Option.ext
    intro time
    rw [meets.marks, represents.mem_zeroRefChunks_gc, Contents.marked_eq_some_iff,
      represents.marks]
    rfl
  · have other : lastGcKey ≠ lastPruneKey := by decide
    have kept : (Store.gc disk.tables nowMs grace).tables.statusMeta[lastPruneKey]? =
        disk.tables.statusMeta[lastPruneKey]? := by
      simp only [Store.gc, gcWith, OrderedTable.getElem?_insert_eq, if_neg other]
    exact kept.trans represents.lastPrune
  · simp [Store.gc, gcWith]

/-- Every operation returns what the contents say, and leaves a disk that
holds the contents after it. -/
theorem Represents.run (represents : Represents blake3 disk contents) {operation : Operation}
    (fits : (liveRefs (operation.run blake3 disk).2.tables).length < 2 ^ 64) :
    (operation.run blake3 disk).1 = (contents.perform operation).1 ∧
      Represents blake3 (operation.run blake3 disk).2 (contents.perform operation).2 := by
  cases operation with
  | putChunk id data => exact represents.putChunk id data
  | putSnapshotAs snapshot blob refs owner =>
      exact represents.putSnapshotAs snapshot blob refs owner fits
  | deleteSnapshot snapshot => exact represents.deleteSnapshot snapshot
  | deleteChunk id => exact represents.deleteChunk id
  | prune nowMs policy mode => exact represents.prune nowMs policy mode
  | gc nowMs grace => exact represents.gc nowMs grace

end Steps

section Runs

variable {storage : Storage} {blake3 : Blake3} {disk next : Disk} {contents : Contents}

/-- What a sequence of operations leaves in an empty store. -/
def contentsAfter (operations : List Operation) : Contents :=
  operations.foldl (fun contents operation => (contents.perform operation).2) .empty

theorem Represents.operate (represents : Represents blake3 disk contents) {operation : Operation}
    (ran : operate storage blake3 disk operation = some next) :
    (operation.run blake3 disk).1 = (contents.perform operation).1 ∧
      Represents blake3 next (contents.perform operation).2 := by
  unfold Store.operate at ran
  split at ran
  next accepted =>
    cases ran
    apply represents.run
    have room := storage.addressable _ accepted
    have few := Crash.length_liveRefs_le_refBytes (operation.run blake3 disk).2.tables
    unfold diskBytes at room
    omega
  next => cases ran

theorem represents_contentsAfter {operations : List Operation}
    (executed : Transition.run (Store.operate storage blake3) .empty operations = some disk) :
    Represents blake3 disk (contentsAfter operations) :=
  Transition.run_refines (Represents blake3) _ represents_empty
    (fun _ _ _ _ represents ran => (represents.operate ran).2) executed

end Runs

end Busyncr.Store
