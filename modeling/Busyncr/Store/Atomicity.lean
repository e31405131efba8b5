import Busyncr.Store.CrashRuns

/-!
`put_snapshot_as` and `delete_snapshot` as a pair: a put that fails leaves the
tables as they were, and a put that succeeds is undone by the deletion of what
it stored, down to the bytes of the index.

This needs what holds of every reachable index: the counts are exact, and
every value has the width of a record.
-/

namespace Busyncr.Store

open Std

/-- The tables that committed transactions reach from the empty store. -/
inductive Reachable (redb : Crash.Redb) : Tables → Prop
  | empty : Reachable redb .empty
  | commit {tables : Tables} (transaction : Transaction) (reachable : Reachable redb tables)
      (accepted : redb.accepts (transaction.commit tables) = true) :
      Reachable redb (transaction.commit tables)

theorem Reachable.exact {redb : Crash.Redb} {tables : Tables} (reachable : Reachable redb tables) :
    RefcountExact tables := by
  induction reachable with
  | empty => exact refcountExact_empty
  | commit transaction _ accepted inductionHypothesis =>
      apply inductionHypothesis.commit transaction
      exact Nat.lt_of_le_of_lt (Crash.length_liveRefs_le_refBytes _)
        (redb.addressable _ accepted)

/-- Every value of the index has the width of a record. -/
def WideIndex (chunks : ChunkTable) : Prop :=
  ∀ (id : ChunkId) (raw : Bytes), chunks[id]? = some raw → raw.length = IndexEntry.valueSize

theorem WideIndex.insert {chunks : ChunkTable} (wide : WideIndex chunks) (id : ChunkId)
    (entry : IndexEntry) : WideIndex (chunks.insert id entry.toWireValue) := by
  intro other raw found
  rw [OrderedTable.getElem?_insert_eq] at found
  split at found
  next =>
    cases found
    exact entry.length_toWireValue
  next => exact wide other raw found

theorem WideIndex.erase {chunks : ChunkTable} (wide : WideIndex chunks) (id : ChunkId) :
    WideIndex (chunks.erase id) := by
  intro other raw found
  rw [OrderedTable.getElem?_erase_eq] at found
  split at found
  next => cases found
  next => exact wide other raw found

theorem WideIndex.eraseAll {chunks : ChunkTable} (wide : WideIndex chunks) (ids : List ChunkId) :
    WideIndex (OrderedTable.eraseAll ids chunks) := by
  intro other raw found
  rw [OrderedTable.getElem?_eraseAll] at found
  split at found
  next => cases found
  next => exact wide other raw found

theorem WideIndex.bumpRefs {snapshot : Ulid} {refs : List ChunkId} {chunks result : ChunkTable}
    (wide : WideIndex chunks) (taken : bumpRefs snapshot refs chunks = .ok result) :
    WideIndex result := by
  induction refs generalizing chunks with
  | nil =>
      cases taken
      exact wide
  | cons chunk rest inductionHypothesis =>
      simp only [Store.bumpRefs] at taken
      split at taken
      next => cases taken
      next entry _ => exact inductionHypothesis (wide.insert chunk _) taken

theorem WideIndex.dropRefs {chunks : ChunkTable} (wide : WideIndex chunks)
    (refs : List ChunkId) : WideIndex (dropRefs refs chunks) := by
  induction refs generalizing chunks with
  | nil => exact wide
  | cons chunk rest inductionHypothesis =>
      simp only [Store.dropRefs]
      split
      next => exact inductionHypothesis wide
      next entry _ => exact inductionHypothesis (wide.insert chunk _)

theorem WideIndex.commit {tables : Tables} (wide : WideIndex tables.chunks)
    (transaction : Transaction) : WideIndex (transaction.commit tables).chunks := by
  apply Transaction.commit_cases (fun next => WideIndex next.chunks) wide
  intro next committed
  cases transaction with
  | putChunk id data =>
      cases committed
      split
      next => exact wide
      next => exact wide.insert id _
  | putSnapshotAs snapshot blob refs owner =>
      obtain ⟨_, chunks, taken, rfl⟩ := putSnapshotAs_ok committed
      exact wide.bumpRefs taken
  | deleteSnapshot snapshot =>
      obtain ⟨_, rfl⟩ := deleteSnapshot_ok committed
      exact wide.dropRefs _
  | deleteChunk id =>
      obtain ⟨_, _, _, rfl⟩ := deleteChunk_ok committed
      exact wide.erase id
  | gc nowMs grace =>
      cases committed
      exact wide.eraseAll _
  | recordPrune nowMs mode =>
      cases committed
      exact wide

theorem Reachable.wideIndex {redb : Crash.Redb} {tables : Tables}
    (reachable : Reachable redb tables) : WideIndex tables.chunks := by
  induction reachable with
  | empty =>
      intro id raw found
      simp [Tables.empty] at found
  | commit transaction _ _ inductionHypothesis => exact inductionHypothesis.commit transaction

/-- The reference-taking loop on the transaction's own copy of the index:
with the error that stops it, what it has written until then. -/
def bumpWorking (snapshot : Ulid) : List ChunkId → ChunkTable → Option StoreError × ChunkTable
  | [], chunks => (none, chunks)
  | chunk :: rest, chunks =>
      match chunkEntry chunks chunk with
      | none => (some (.unknownChunkRef snapshot chunk), chunks)
      | some entry =>
          let bumped : IndexEntry :=
            { chunkLen := entry.chunkLen, refcount := Saturating.add entry.refcount 1 }
          bumpWorking snapshot rest (chunks.insert chunk bumped.toWireValue)

/-- The copy is committed, or dropped with the error. -/
def commitCopy : Option StoreError × ChunkTable → Except StoreError ChunkTable
  | (none, written) => .ok written
  | (some error, _) => .error error

theorem bumpRefs_eq_commitCopy (snapshot : Ulid) (refs : List ChunkId) (chunks : ChunkTable) :
    bumpRefs snapshot refs chunks = commitCopy (bumpWorking snapshot refs chunks) := by
  induction refs generalizing chunks with
  | nil => rfl
  | cons chunk rest inductionHypothesis =>
      simp only [bumpRefs, bumpWorking]
      cases chunkEntry chunks chunk with
      | none => rfl
      | some entry => exact inductionHypothesis _

/-- The first reference that is not indexed stops the loop, and by then the
copy has taken the references before it. -/
theorem bumpWorking_missing {snapshot : Ulid} {before after : List ChunkId} {chunk : ChunkId}
    {chunks : ChunkTable} (indexed : ∀ earlier ∈ before, earlier ∈ chunks)
    (missing : chunk ∉ chunks) :
    (bumpWorking snapshot (before ++ chunk :: after) chunks).1 =
        some (.unknownChunkRef snapshot chunk) ∧
      ∀ id, chunkEntry (bumpWorking snapshot (before ++ chunk :: after) chunks).2 id =
        (chunkEntry chunks id).map (bumpBy (before.count id)) := by
  induction before generalizing chunks with
  | nil =>
      simp only [List.nil_append, bumpWorking, chunkEntry_eq_none_iff.mpr missing, true_and]
      intro id
      cases chunkEntry chunks id <;> simp
  | cons first rest inductionHypothesis =>
      obtain ⟨entry, found⟩ := mem_chunks_iff_chunkEntry.mp (indexed first List.mem_cons_self)
      simp only [List.cons_append, bumpWorking, found]
      have restIndexed : ∀ earlier ∈ rest, earlier ∈ chunks.insert first
          (IndexEntry.toWireValue ⟨entry.chunkLen, Saturating.add entry.refcount 1⟩) := by
        intro earlier listed
        exact ExtTreeMap.mem_insert.mpr (.inr (indexed earlier (List.mem_cons_of_mem _ listed)))
      have stillMissing : chunk ∉ chunks.insert first
          (IndexEntry.toWireValue ⟨entry.chunkLen, Saturating.add entry.refcount 1⟩) := by
        intro inserted
        obtain same | wasIndexed := ExtTreeMap.mem_insert.mp inserted
        · obtain rfl := LawfulEqOrd.compare_eq_iff_eq.mp same
          exact missing (indexed first List.mem_cons_self)
        · exact missing wasIndexed
      obtain ⟨stopped, written⟩ := inductionHypothesis restIndexed stillMissing
      refine ⟨stopped, fun id => ?_⟩
      rw [written, chunkEntry_insert]
      by_cases same : first = id
      · subst same
        simp [found, bumpBy_succ]
      · simp [same]

/-- Indexes of records are equal when their records are. -/
theorem WideIndex.ext {left right : ChunkTable} (leftWide : WideIndex left)
    (rightWide : WideIndex right) (same : ∀ id, chunkEntry left id = chunkEntry right id) :
    left = right := by
  have recovered : ∀ {chunks : ChunkTable}, WideIndex chunks → ∀ id,
      chunks[id]? = (chunkEntry chunks id).map IndexEntry.toWireValue := by
    intro chunks wide id
    cases found : chunks[id]? with
    | none => simp [chunkEntry, found]
    | some raw =>
        have width := wide id raw found
        have decoded : decodeEntry raw = .fromWireValue raw := if_pos width
        simp [chunkEntry, found, decoded, IndexEntry.toWireValue_fromWireValue width]
  apply ExtTreeMap.ext_getElem?
  intro id
  rw [recovered leftWide, recovered rightWide, same]

theorem dropBy_bumpBy {count : Nat} {entry : IndexEntry}
    (fits : entry.refcount.toNat + count < 2 ^ 64) : dropBy count (bumpBy count entry) = entry := by
  refine entry_ext rfl ?_
  rw [toNat_refcount_dropBy, toNat_refcount_bumpBy]
  omega

/-- Dropping the references just taken gives the index back. -/
theorem dropRefs_of_bumpRefs {snapshot : Ulid} {refs : List ChunkId} {chunks bumped : ChunkTable}
    (wide : WideIndex chunks) (taken : bumpRefs snapshot refs chunks = .ok bumped)
    (fits : ∀ id entry, chunkEntry chunks id = some entry →
      entry.refcount.toNat + refs.count id < 2 ^ 64) : dropRefs refs bumped = chunks := by
  apply ((wide.bumpRefs taken).dropRefs refs).ext wide
  intro id
  rw [chunkEntry_dropRefs, (bumpRefs_ok taken).2]
  cases found : chunkEntry chunks id with
  | none => rfl
  | some entry => simp [dropBy_bumpBy (fits id entry found)]

theorem erase_recordOwner {owners : ExtTreeMap Ulid String} {snapshot : Ulid}
    (fresh : snapshot ∉ owners) (owner : Option String) :
    (recordOwner owners snapshot owner).erase snapshot = owners := by
  cases owner with
  | none => exact OrderedTable.erase_of_fresh fresh
  | some name =>
      rw [recordOwner, OrderedTable.erase_insert, OrderedTable.erase_of_fresh fresh]

section Pair

variable {redb : Crash.Redb} {tables : Tables} {snapshot : Ulid} {blob : Bytes}
  {refs : List ChunkId} {owner : Option String}

/-- The reference a failed put names: the first that is not indexed. -/
def FirstMissing (chunks : ChunkTable) (refs : List ChunkId) (chunk : ChunkId) : Prop :=
  ∃ before after, refs = before ++ chunk :: after ∧ (∀ earlier ∈ before, earlier ∈ chunks) ∧
    chunk ∉ chunks

theorem putSnapshotAs_error_iff {error : StoreError} :
    putSnapshotAs tables snapshot blob refs owner = .error error ↔
      snapshot ∈ tables.snapshots ∧ error = .snapshotExists snapshot ∨
        snapshot ∉ tables.snapshots ∧ ∃ chunk, FirstMissing tables.chunks refs chunk ∧
          error = .unknownChunkRef snapshot chunk := by
  unfold putSnapshotAs
  split
  next stored =>
    simp only [stored, true_and, not_true_eq_false, false_and, or_false, Except.error.injEq]
    exact eq_comm
  next fresh =>
    simp only [fresh, false_and, not_false_eq_true, true_and, false_or]
    constructor
    · intro failed
      split at failed
      next found refused =>
        cases failed
        obtain ⟨before, chunk, after, split, indexed, missing, named⟩ := bumpRefs_error refused
        exact ⟨chunk, ⟨before, after, split, indexed, missing⟩, named⟩
      next => cases failed
    · rintro ⟨chunk, ⟨before, after, rfl, indexed, missing⟩, rfl⟩
      obtain ⟨stopped, -⟩ := bumpWorking_missing indexed missing
      rw [bumpRefs_eq_commitCopy]
      rcases copy : bumpWorking snapshot (before ++ chunk :: after) tables.chunks with
        ⟨result, written⟩
      rw [copy] at stopped
      cases stopped
      rfl

theorem Reachable.refcount_fits (reachable : Reachable redb tables)
    (fits : (liveRefs tables).length + refs.length < 2 ^ 64) {id : ChunkId} {entry : IndexEntry}
    (found : chunkEntry tables.chunks id = some entry) :
    entry.refcount.toNat + refs.count id < 2 ^ 64 := by
  have live : (liveRefs tables).count id ≤ (liveRefs tables).length := List.count_le_length
  have new : refs.count id ≤ refs.length := List.count_le_length
  rw [reachable.exact.counted id entry found]
  omega

/-- What was put is deleted without a trace. -/
theorem Reachable.deleteSnapshot_of_put (reachable : Reachable redb tables)
    (fits : (liveRefs tables).length + refs.length < 2 ^ 64) {next : Tables}
    (stored : putSnapshotAs tables snapshot blob refs owner = .ok next) :
    deleteSnapshot next snapshot = .ok tables := by
  obtain ⟨fresh, chunks, taken, rfl⟩ := putSnapshotAs_ok stored
  have freshRefs : snapshot ∉ tables.snapshotRefs :=
    fun present => fresh ((reachable.exact.refsLive snapshot).mp present)
  have freshOwner : snapshot ∉ tables.snapshotOwner :=
    fun present => fresh (reachable.exact.ownersLive snapshot present)
  have restored : dropRefs refs chunks = tables.chunks :=
    dropRefs_of_bumpRefs reachable.wideIndex taken
      fun _ _ found => reachable.refcount_fits fits found
  have live : snapshot ∈ tables.snapshots.insert snapshot blob :=
    ExtTreeMap.mem_insert_self
  simp only [deleteSnapshot, if_pos live, Tables.refsOf, ExtTreeMap.getElem?_insert_self,
    Option.getD_some, decodeRefs_encodeRefs, restored, OrderedTable.erase_insert,
    OrderedTable.erase_of_fresh fresh, OrderedTable.erase_of_fresh freshRefs,
    erase_recordOwner freshOwner]

/-- A put fails exactly when its snapshot is stored already or a reference is
not indexed, and then changes nothing, whatever its transaction had written;
else, while all references fit a count, it counts its own, and deleting it
undoes it. -/
theorem put_and_delete_snapshot_are_inverse (reachable : Reachable redb tables) (snapshot : Ulid)
    (blob : Bytes) (refs : List ChunkId) (owner : Option String) :
    (∀ error, putSnapshotAs tables snapshot blob refs owner = .error error ↔
      snapshot ∈ tables.snapshots ∧ error = .snapshotExists snapshot ∨
        snapshot ∉ tables.snapshots ∧ ∃ chunk, FirstMissing tables.chunks refs chunk ∧
          error = .unknownChunkRef snapshot chunk) ∧
      (∀ error, putSnapshotAs tables snapshot blob refs owner = .error error →
        (Transaction.putSnapshotAs snapshot blob refs owner).commit tables = tables) ∧
      (∀ before chunk after, refs = before ++ chunk :: after →
        (∀ earlier ∈ before, earlier ∈ tables.chunks) → chunk ∉ tables.chunks →
          ∀ id, chunkEntry (bumpWorking snapshot refs tables.chunks).2 id =
            (chunkEntry tables.chunks id).map (bumpBy (before.count id))) ∧
      ∀ next, putSnapshotAs tables snapshot blob refs owner = .ok next →
        (∀ id, chunkEntry next.chunks id = none ↔ chunkEntry tables.chunks id = none) ∧
          ((liveRefs tables).length + refs.length < 2 ^ 64 →
            (∀ id entry, chunkEntry tables.chunks id = some entry →
              ∃ grown, chunkEntry next.chunks id = some grown ∧
                grown.chunkLen = entry.chunkLen ∧
                grown.refcount.toNat = entry.refcount.toNat + refs.count id) ∧
            deleteSnapshot next snapshot = .ok tables) := by
  refine ⟨fun _ => putSnapshotAs_error_iff, ?_, ?_, ?_⟩
  · intro error failed
    exact Transaction.commit_of_error failed
  · rintro before chunk after rfl indexed missing
    exact (bumpWorking_missing indexed missing).2
  · intro next stored
    obtain ⟨fresh, chunks, taken, same⟩ := putSnapshotAs_ok stored
    have entries := (bumpRefs_ok taken).2
    refine ⟨?_, fun fits => ⟨?_, reachable.deleteSnapshot_of_put fits stored⟩⟩
    · intro id
      rw [same, entries, Option.map_eq_none_iff]
    · intro id entry found
      refine ⟨bumpBy (refs.count id) entry, ?_, rfl, ?_⟩
      · rw [same, entries, found]
        rfl
      · have bound := reachable.refcount_fits fits found
        rw [toNat_refcount_bumpBy]
        omega

end Pair

/-- One indexed chunk that nothing refers to. -/
def oneChunk (chunk : ChunkId) : Tables := (Transaction.putChunk chunk [5]).commit .empty

theorem reachable_oneChunk : Reachable .full (oneChunk ⟨.replicate 32 7⟩) :=
  .commit _ .empty (by decide +kernel)

theorem doubled_reference_is_undone :
    ∃ next, putSnapshotAs (oneChunk ⟨.replicate 32 7⟩) (.fromParts 1 0) [9]
        [⟨.replicate 32 7⟩, ⟨.replicate 32 7⟩] (some "laptop") = .ok next ∧
      deleteSnapshot next (.fromParts 1 0) = .ok (oneChunk ⟨.replicate 32 7⟩) := by
  obtain ⟨-, -, -, succeeds⟩ := put_and_delete_snapshot_are_inverse reachable_oneChunk
    (.fromParts 1 0) [9] [⟨.replicate 32 7⟩, ⟨.replicate 32 7⟩] (some "laptop")
  cases stored : putSnapshotAs (oneChunk ⟨.replicate 32 7⟩) (.fromParts 1 0) [9]
      [⟨.replicate 32 7⟩, ⟨.replicate 32 7⟩] (some "laptop") with
  | error error =>
      have completed : (putSnapshotAs (oneChunk ⟨.replicate 32 7⟩) (.fromParts 1 0) [9]
          [⟨.replicate 32 7⟩, ⟨.replicate 32 7⟩] (some "laptop")).toOption.isSome = true := by
        decide +kernel
      rw [stored] at completed
      cases completed
  | ok next => exact ⟨next, rfl, ((succeeds next stored).2 (by decide +kernel)).2⟩

end Busyncr.Store
