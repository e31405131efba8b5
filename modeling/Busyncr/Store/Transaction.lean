import Busyncr.Store.Snapshots
import Busyncr.Store.Gc
import Busyncr.Store.Chunks

/-!
The write transactions of the store as one type.

Every write of the daemon is one of six committed transactions, so a
property of the tables is settled once for each of them and then holds
however calls, crashes and services schedule them.
-/

namespace Busyncr.Store

open Std

/-- A write transaction on the index database. -/
inductive Transaction where
  | putChunk (id : ChunkId) (data : Bytes)
  | putSnapshotAs (snapshot : Ulid) (blob : Bytes) (refs : List ChunkId) (owner : Option String)
  | deleteSnapshot (snapshot : Ulid)
  | deleteChunk (id : ChunkId)
  | gc (nowMs : Int64) (grace : Duration)
  | recordPrune (nowMs : Int64) (mode : PruneMode)
deriving DecidableEq

namespace Transaction

/-- The tables a transaction commits, or the error it ends with. -/
def result (tables : Tables) : Transaction → Except StoreError Tables
  | putChunk id data => .ok (if id ∈ tables.chunks then tables else indexChunk tables id data)
  | putSnapshotAs snapshot blob refs owner => Store.putSnapshotAs tables snapshot blob refs owner
  | deleteSnapshot snapshot => Store.deleteSnapshot tables snapshot
  | deleteChunk id => Store.deleteChunk tables id
  | gc nowMs grace => .ok (Store.gc tables nowMs grace).tables
  | recordPrune nowMs mode => .ok (Store.recordPrune tables nowMs mode)

/-- The tables after a transaction; one that fails is aborted and leaves them
as they were. -/
def commit (transaction : Transaction) (tables : Tables) : Tables :=
  match transaction.result tables with
  | .ok next => next
  | .error _ => tables

theorem commit_of_ok {transaction : Transaction} {tables next : Tables}
    (succeeded : transaction.result tables = .ok next) :
    transaction.commit tables = next := by
  simp [commit, succeeded]

theorem commit_of_error {transaction : Transaction} {tables : Tables} {error : StoreError}
    (failed : transaction.result tables = .error error) :
    transaction.commit tables = tables := by
  simp [commit, failed]

/-- To prove a property of the tables after a transaction, prove it of the
tables before and of what a successful transaction commits. -/
theorem commit_cases (Holds : Tables → Prop) {transaction : Transaction} {tables : Tables}
    (unchanged : Holds tables)
    (committed : ∀ next, transaction.result tables = .ok next → Holds next) :
    Holds (transaction.commit tables) := by
  cases outcome : transaction.result tables with
  | ok next =>
      rw [commit_of_ok outcome]
      exact committed next outcome
  | error error =>
      rw [commit_of_error outcome]
      exact unchanged

end Transaction

theorem putSnapshotAs_ok {tables next : Tables} {snapshot : Ulid} {blob : Bytes}
    {refs : List ChunkId} {owner : Option String}
    (stored : putSnapshotAs tables snapshot blob refs owner = .ok next) :
    snapshot ∉ tables.snapshots ∧ ∃ chunks, bumpRefs snapshot refs tables.chunks = .ok chunks ∧
      next = { tables with
        chunks := chunks
        snapshotRefs := tables.snapshotRefs.insert snapshot (encodeRefs refs)
        snapshots := tables.snapshots.insert snapshot blob
        snapshotOwner := recordOwner tables.snapshotOwner snapshot owner } := by
  unfold putSnapshotAs at stored
  split at stored
  next occupied => cases stored
  next fresh =>
    refine ⟨fresh, ?_⟩
    cases taken : bumpRefs snapshot refs tables.chunks with
    | error error => simp [taken] at stored
    | ok chunks =>
        simp only [taken] at stored
        cases stored
        exact ⟨chunks, rfl, rfl⟩

theorem deleteSnapshot_ok {tables next : Tables} {snapshot : Ulid}
    (deleted : deleteSnapshot tables snapshot = .ok next) :
    snapshot ∈ tables.snapshots ∧
      next = { tables with
        snapshots := tables.snapshots.erase snapshot
        snapshotOwner := tables.snapshotOwner.erase snapshot
        snapshotRefs := tables.snapshotRefs.erase snapshot
        chunks := dropRefs (tables.refsOf snapshot) tables.chunks } := by
  unfold deleteSnapshot at deleted
  split at deleted
  next live =>
    cases deleted
    exact ⟨live, rfl⟩
  next gone => cases deleted

/-- Only `put_chunk` adds an index key. -/
theorem mem_chunks_commit {transaction : Transaction} {tables : Tables} {id : ChunkId}
    (indexed : id ∈ (transaction.commit tables).chunks) :
    id ∈ tables.chunks ∨ ∃ data, transaction = .putChunk id data := by
  cases outcome : transaction.result tables with
  | error error =>
      rw [Transaction.commit_of_error outcome] at indexed
      exact .inl indexed
  | ok next =>
      rw [Transaction.commit_of_ok outcome] at indexed
      cases transaction with
      | putChunk chunk data =>
          cases outcome
          split at indexed
          next occupied => exact .inl indexed
          next fresh =>
            rcases ExtTreeMap.mem_insert.mp indexed with same | before
            · exact .inr ⟨data, by rw [LawfulEqOrd.compare_eq_iff_eq.mp same]⟩
            · exact .inl before
      | putSnapshotAs snapshot blob refs owner =>
          rcases putSnapshotAs_ok outcome with ⟨_, chunks, taken, rfl⟩
          rw [mem_chunks_iff_chunkEntry, (bumpRefs_ok taken).2] at indexed
          rcases indexed with ⟨entry, bumped⟩
          rcases Option.map_eq_some_iff.mp bumped with ⟨before, found, _⟩
          exact .inl (mem_chunks_iff_chunkEntry.mpr ⟨before, found⟩)
      | deleteSnapshot snapshot =>
          rcases deleteSnapshot_ok outcome with ⟨_, rfl⟩
          exact .inl ((mem_dropRefs_iff _ _ _).mp indexed)
      | deleteChunk chunk =>
          rcases deleteChunk_ok outcome with ⟨_, _, _, rfl⟩
          exact .inl (ExtTreeMap.mem_erase.mp indexed).2
      | gc nowMs grace =>
          cases outcome
          rw [mem_chunks_iff_chunkEntry, chunkEntry_gc] at indexed
          rcases indexed with ⟨entry, found⟩
          split at found
          next expired => cases found
          next kept => exact .inl (mem_chunks_iff_chunkEntry.mpr ⟨entry, found⟩)
      | recordPrune nowMs mode =>
          cases outcome
          exact .inl indexed

theorem not_mem_chunks_gc {tables : Tables} {nowMs : Int64} {grace : Duration} {id : ChunkId}
    (reclaimed : id ∈ (gc tables nowMs grace).reclaimed.map Prod.fst) :
    id ∉ (gc tables nowMs grace).tables.chunks := by
  rw [← chunkEntry_eq_none_iff, chunkEntry_gc,
    if_pos ((mem_reclaimed_gc_iff tables nowMs grace id).mp reclaimed)]

/-- Only its own deletion takes a snapshot out of the table. -/
theorem not_mem_snapshots_commit {transaction : Transaction} {tables : Tables} {snapshot : Ulid}
    (live : snapshot ∈ tables.snapshots)
    (removed : snapshot ∉ (transaction.commit tables).snapshots) :
    transaction = .deleteSnapshot snapshot := by
  cases outcome : transaction.result tables with
  | error error =>
      rw [Transaction.commit_of_error outcome] at removed
      exact absurd live removed
  | ok next =>
      rw [Transaction.commit_of_ok outcome] at removed
      cases transaction with
      | putChunk chunk data =>
          cases outcome
          split at removed <;> exact absurd live removed
      | putSnapshotAs other blob refs owner =>
          rcases putSnapshotAs_ok outcome with ⟨_, chunks, taken, rfl⟩
          exact absurd (ExtTreeMap.mem_insert.mpr (.inr live)) removed
      | deleteSnapshot other =>
          rcases deleteSnapshot_ok outcome with ⟨_, rfl⟩
          by_contra different
          refine removed (ExtTreeMap.mem_erase.mpr ⟨fun same => different ?_, live⟩)
          rw [LawfulEqOrd.compare_eq_iff_eq.mp same]
      | deleteChunk chunk =>
          rcases deleteChunk_ok outcome with ⟨_, _, _, rfl⟩
          exact absurd live removed
      | gc nowMs grace =>
          cases outcome
          exact absurd live removed
      | recordPrune nowMs mode =>
          cases outcome
          exact absurd live removed

/-- Blob, references and owner of a snapshot that stays live do not change. -/
theorem snapshot_commit {transaction : Transaction} {tables : Tables} {snapshot : Ulid}
    (live : snapshot ∈ tables.snapshots)
    (stillLive : snapshot ∈ (transaction.commit tables).snapshots) :
    (transaction.commit tables).snapshots[snapshot]? = tables.snapshots[snapshot]? ∧
      (transaction.commit tables).refsOf snapshot = tables.refsOf snapshot ∧
      (transaction.commit tables).snapshotOwner[snapshot]? = tables.snapshotOwner[snapshot]? := by
  cases outcome : transaction.result tables with
  | error error =>
      rw [Transaction.commit_of_error outcome]
      exact ⟨rfl, rfl, rfl⟩
  | ok next =>
      rw [Transaction.commit_of_ok outcome] at stillLive ⊢
      cases transaction with
      | putChunk chunk data =>
          cases outcome
          split <;> exact ⟨rfl, rfl, rfl⟩
      | putSnapshotAs other blob refs owner =>
          obtain ⟨fresh, chunks, _, rfl⟩ := putSnapshotAs_ok outcome
          have different : other ≠ snapshot := by
            rintro rfl
            exact fresh live
          refine ⟨?_, ?_, ?_⟩
          · simp [OrderedTable.getElem?_insert_eq, different]
          · simp [Tables.refsOf, OrderedTable.getElem?_insert_eq, different]
          · cases owner with
            | none => rfl
            | some name => simp [recordOwner, OrderedTable.getElem?_insert_eq, different]
      | deleteSnapshot other =>
          obtain ⟨_, rfl⟩ := deleteSnapshot_ok outcome
          have different : other ≠ snapshot := by
            rintro rfl
            simp [ExtTreeMap.mem_erase] at stillLive
          simp [Tables.refsOf, OrderedTable.getElem?_erase_eq, different]
      | deleteChunk chunk =>
          obtain ⟨_, _, _, rfl⟩ := deleteChunk_ok outcome
          exact ⟨rfl, rfl, rfl⟩
      | gc nowMs grace =>
          cases outcome
          exact ⟨rfl, rfl, rfl⟩
      | recordPrune nowMs mode =>
          cases outcome
          exact ⟨rfl, rfl, rfl⟩

/-- A transaction that adds a snapshot is the `put_snapshot_as` of it. -/
theorem mem_snapshots_commit {transaction : Transaction} {tables : Tables} {snapshot : Ulid}
    (fresh : snapshot ∉ tables.snapshots)
    (live : snapshot ∈ (transaction.commit tables).snapshots) :
    ∃ blob refs owner, transaction = .putSnapshotAs snapshot blob refs owner ∧
      (transaction.commit tables).snapshots[snapshot]? = some blob ∧
      (transaction.commit tables).refsOf snapshot = refs := by
  cases outcome : transaction.result tables with
  | error error =>
      rw [Transaction.commit_of_error outcome] at live
      exact absurd live fresh
  | ok next =>
      rw [Transaction.commit_of_ok outcome] at live ⊢
      cases transaction with
      | putChunk chunk data =>
          cases outcome
          split at live <;> exact absurd live fresh
      | putSnapshotAs other blob refs owner =>
          obtain ⟨_, chunks, _, rfl⟩ := putSnapshotAs_ok outcome
          rcases ExtTreeMap.mem_insert.mp live with same | before
          · obtain rfl := LawfulEqOrd.compare_eq_iff_eq.mp same
            exact ⟨blob, refs, owner, rfl, by simp, by simp [Tables.refsOf]⟩
          · exact absurd before fresh
      | deleteSnapshot other =>
          obtain ⟨_, rfl⟩ := deleteSnapshot_ok outcome
          exact absurd (ExtTreeMap.mem_erase.mp live).2 fresh
      | deleteChunk chunk =>
          obtain ⟨_, _, _, rfl⟩ := deleteChunk_ok outcome
          exact absurd live fresh
      | gc nowMs grace =>
          cases outcome
          exact absurd live fresh
      | recordPrune nowMs mode =>
          cases outcome
          exact absurd live fresh

/-- The recorded length of a chunk that stays indexed does not change. -/
theorem chunkLen_commit {transaction : Transaction} {tables : Tables} {id : ChunkId}
    {entry : IndexEntry} (found : chunkEntry tables.chunks id = some entry)
    (indexed : id ∈ (transaction.commit tables).chunks) :
    ∃ kept, chunkEntry (transaction.commit tables).chunks id = some kept ∧
      kept.chunkLen = entry.chunkLen := by
  obtain ⟨kept, lookup⟩ := mem_chunks_iff_chunkEntry.mp indexed
  refine ⟨kept, lookup, ?_⟩
  cases outcome : transaction.result tables with
  | error error =>
      rw [Transaction.commit_of_error outcome, found] at lookup
      cases lookup
      rfl
  | ok next =>
      rw [Transaction.commit_of_ok outcome] at lookup
      have kept_of_same : ∀ same : chunkEntry tables.chunks id = some kept,
          kept.chunkLen = entry.chunkLen := by
        intro same
        rw [found] at same
        cases same
        rfl
      cases transaction with
      | putChunk chunk data =>
          cases outcome
          split at lookup
          next occupied => exact kept_of_same lookup
          next fresh =>
            have different : chunk ≠ id := by
              rintro rfl
              exact fresh (mem_chunks_iff_chunkEntry.mpr ⟨entry, found⟩)
            rw [indexChunk, chunkEntry_insert, if_neg different] at lookup
            exact kept_of_same lookup
      | putSnapshotAs snapshot blob refs owner =>
          obtain ⟨_, chunks, taken, rfl⟩ := putSnapshotAs_ok outcome
          simp only [(bumpRefs_ok taken).2, found, Option.map_some] at lookup
          cases lookup
          rfl
      | deleteSnapshot snapshot =>
          obtain ⟨_, rfl⟩ := deleteSnapshot_ok outcome
          simp only [chunkEntry_dropRefs, found, Option.map_some] at lookup
          cases lookup
          rfl
      | deleteChunk chunk =>
          obtain ⟨_, _, _, rfl⟩ := deleteChunk_ok outcome
          rw [chunkEntry_erase] at lookup
          split at lookup
          next same => cases lookup
          next different => exact kept_of_same lookup
      | gc nowMs grace =>
          cases outcome
          rw [chunkEntry_gc] at lookup
          split at lookup
          next expired => cases lookup
          next unexpired => exact kept_of_same lookup
      | recordPrune nowMs mode =>
          cases outcome
          exact kept_of_same lookup

/-- Only gc and `delete_chunk` remove an index key. -/
theorem mem_chunks_commit_of_mem {transaction : Transaction} {tables : Tables} {id : ChunkId}
    (notGc : ∀ nowMs grace, transaction ≠ .gc nowMs grace)
    (notDeleted : transaction ≠ .deleteChunk id) (indexed : id ∈ tables.chunks) :
    id ∈ (transaction.commit tables).chunks := by
  refine Transaction.commit_cases (fun next => id ∈ next.chunks) indexed fun next outcome => ?_
  cases transaction with
  | putChunk chunk data =>
      cases outcome
      split
      next occupied => exact indexed
      next fresh => exact ExtTreeMap.mem_insert.mpr (.inr indexed)
  | putSnapshotAs snapshot blob refs owner =>
      rcases putSnapshotAs_ok outcome with ⟨_, chunks, taken, rfl⟩
      rcases mem_chunks_iff_chunkEntry.mp indexed with ⟨entry, found⟩
      exact mem_chunks_iff_chunkEntry.mpr
        ⟨bumpBy (refs.count id) entry, by simp [(bumpRefs_ok taken).2, found]⟩
  | deleteSnapshot snapshot =>
      rcases deleteSnapshot_ok outcome with ⟨_, rfl⟩
      exact (mem_dropRefs_iff _ _ _).mpr indexed
  | deleteChunk chunk =>
      rcases deleteChunk_ok outcome with ⟨_, _, _, rfl⟩
      refine ExtTreeMap.mem_erase.mpr ⟨fun same => notDeleted ?_, indexed⟩
      rw [LawfulEqOrd.compare_eq_iff_eq.mp same]
  | gc nowMs grace => exact absurd rfl (notGc nowMs grace)
  | recordPrune nowMs mode =>
      cases outcome
      exact indexed

/-- A transaction after which a chunk is still indexed does not change what is
read for it. -/
theorem getChunk_commit {blake3 : Blake3} {disk : Disk} {transaction : Transaction} {id : ChunkId}
    (indexed : id ∈ disk.tables.chunks)
    (stillIndexed : id ∈ (transaction.commit disk.tables).chunks) :
    getChunk blake3 { disk with tables := transaction.commit disk.tables } id =
      getChunk blake3 disk id := by
  obtain ⟨entry, found⟩ := mem_chunks_iff_chunkEntry.mp indexed
  obtain ⟨kept, lookup, sameLen⟩ := chunkLen_commit found stillIndexed
  apply getChunk_congr
  · simp [lookup, found, sameLen]
  · rfl

end Busyncr.Store
