import Busyncr.Store.Transaction

/-!
Refcount exactness: what the index counts is what the live snapshots refer
to.

`RefcountExact` is kept by every transaction as long as the references fit a
64-bit counter.  Under it the defensive branches of the reference loops are
never taken.
-/

namespace Busyncr.Store

open Std

/-- The references of the live snapshots, duplicates counted. -/
def liveRefs (tables : Tables) : List ChunkId :=
  tables.snapshots.keys.flatMap tables.refsOf

/-- Refcounts are exact and the snapshot tables agree. -/
structure RefcountExact (tables : Tables) : Prop where
  counted : ∀ id entry, chunkEntry tables.chunks id = some entry →
    entry.refcount.toNat = (liveRefs tables).count id
  referenced : ∀ id ∈ liveRefs tables, id ∈ tables.chunks
  refsLive : ∀ snapshot, snapshot ∈ tables.snapshotRefs ↔ snapshot ∈ tables.snapshots
  ownersLive : ∀ snapshot, snapshot ∈ tables.snapshotOwner → snapshot ∈ tables.snapshots

theorem mem_liveRefs_iff {tables : Tables} {id : ChunkId} :
    id ∈ liveRefs tables ↔ ∃ snapshot ∈ tables.snapshots, id ∈ tables.refsOf snapshot := by
  simp [liveRefs]

theorem liveRefs_congr {tables other : Tables} (sameSnapshots : other.snapshots = tables.snapshots)
    (sameRefs : other.snapshotRefs = tables.snapshotRefs) : liveRefs other = liveRefs tables := by
  have sameRefsOf : other.refsOf = tables.refsOf := by
    funext snapshot
    simp [Tables.refsOf, sameRefs]
  simp [liveRefs, sameSnapshots, sameRefsOf]

/-- The reference list of one snapshot after another was stored. -/
theorem refsOf_insert {tables next : Tables} {snapshot other : Ulid} {refs : List ChunkId}
    (stored : next.snapshotRefs = tables.snapshotRefs.insert snapshot (encodeRefs refs)) :
    next.refsOf other = if snapshot = other then refs else tables.refsOf other := by
  unfold Tables.refsOf
  rw [stored, OrderedTable.getElem?_insert_eq]
  split <;> simp

theorem refsOf_erase {tables next : Tables} {snapshot other : Ulid}
    (erased : next.snapshotRefs = tables.snapshotRefs.erase snapshot)
    (different : snapshot ≠ other) : next.refsOf other = tables.refsOf other := by
  unfold Tables.refsOf
  rw [erased, OrderedTable.getElem?_erase_eq, if_neg different]

/-- Storing a new snapshot adds its references to the live ones. -/
theorem liveRefs_insert_perm {tables next : Tables} {snapshot : Ulid} {blob : Bytes}
    {refs : List ChunkId} (fresh : snapshot ∉ tables.snapshots)
    (stored : next.snapshots = tables.snapshots.insert snapshot blob)
    (storedRefs : next.snapshotRefs = tables.snapshotRefs.insert snapshot (encodeRefs refs)) :
    (liveRefs next).Perm (refs ++ liveRefs tables) := by
  have keysPerm : next.snapshots.keys.Perm (snapshot :: tables.snapshots.keys) := by
    rw [stored]
    exact OrderedTable.keys_insert_perm _ _ fresh
  have older : tables.snapshots.keys.flatMap next.refsOf = liveRefs tables := by
    apply List.flatMap_congr
    intro other membership
    have different : snapshot ≠ other := by
      rintro rfl
      exact fresh (ExtTreeMap.mem_keys.mp membership)
    rw [refsOf_insert storedRefs, if_neg different]
  have newest : next.refsOf snapshot = refs := by
    rw [refsOf_insert storedRefs, if_pos rfl]
  have moved := keysPerm.flatMap_right next.refsOf
  rwa [List.flatMap_cons, newest, older] at moved

/-- Deleting a snapshot takes its references out of the live ones. -/
theorem liveRefs_erase_perm {tables next : Tables} {snapshot : Ulid}
    (live : snapshot ∈ tables.snapshots)
    (erased : next.snapshots = tables.snapshots.erase snapshot)
    (erasedRefs : next.snapshotRefs = tables.snapshotRefs.erase snapshot) :
    (liveRefs tables).Perm (tables.refsOf snapshot ++ liveRefs next) := by
  have keysPerm := OrderedTable.keys_perm_cons_erase tables.snapshots live
  have others : (tables.snapshots.erase snapshot).keys.flatMap tables.refsOf =
      liveRefs next := by
    rw [liveRefs, erased]
    apply List.flatMap_congr
    intro other membership
    have different : snapshot ≠ other := by
      rintro rfl
      simp [ExtTreeMap.mem_erase] at membership
    rw [refsOf_erase erasedRefs different]
  have moved := keysPerm.flatMap_right tables.refsOf
  rwa [List.flatMap_cons, others] at moved

/-- A live snapshot's references are among the live ones, with their
multiplicity. -/
theorem count_refsOf_le {tables : Tables} {snapshot : Ulid}
    (live : snapshot ∈ tables.snapshots) (id : ChunkId) :
    (tables.refsOf snapshot).count id ≤ (liveRefs tables).count id := by
  let next : Tables := { tables with
    snapshots := tables.snapshots.erase snapshot
    snapshotRefs := tables.snapshotRefs.erase snapshot }
  have moved : (liveRefs tables).Perm (tables.refsOf snapshot ++ liveRefs next) :=
    liveRefs_erase_perm live rfl rfl
  rw [moved.count_eq, List.count_append]
  omega

theorem refcountExact_empty : RefcountExact .empty := by
  refine ⟨?_, ?_, ?_, ?_⟩ <;> simp [Tables.empty, liveRefs, chunkEntry]

/-- A transaction that changes neither the snapshot tables nor a refcount, and
removes only unreferenced chunks, keeps the counts exact. -/
theorem RefcountExact.of_chunks {tables next : Tables} (exact : RefcountExact tables)
    (sameSnapshots : next.snapshots = tables.snapshots)
    (sameRefs : next.snapshotRefs = tables.snapshotRefs)
    (sameOwners : next.snapshotOwner = tables.snapshotOwner)
    (entries : ∀ id entry, chunkEntry next.chunks id = some entry →
      chunkEntry tables.chunks id = some entry ∨
        id ∉ tables.chunks ∧ entry.refcount.toNat = 0)
    (kept : ∀ id entry, chunkEntry tables.chunks id = some entry → 0 < entry.refcount.toNat →
      id ∈ next.chunks) :
    RefcountExact next := by
  have sameLive := liveRefs_congr sameSnapshots sameRefs
  refine ⟨fun id entry found => ?_, fun id membership => ?_, fun snapshot => ?_,
    fun snapshot owned => ?_⟩
  · rw [sameLive]
    rcases entries id entry found with before | ⟨absent, zero⟩
    · exact exact.counted id entry before
    · have unreferenced : id ∉ liveRefs tables :=
        fun membership => absent (exact.referenced id membership)
      rw [zero, List.count_eq_zero_of_not_mem unreferenced]
  · rw [sameLive] at membership
    rcases mem_chunks_iff_chunkEntry.mp (exact.referenced id membership) with ⟨entry, found⟩
    refine kept id entry found ?_
    rw [exact.counted id entry found]
    exact List.count_pos_iff.mpr membership
  · rw [sameRefs, sameSnapshots]
    exact exact.refsLive snapshot
  · rw [sameOwners] at owned
    rw [sameSnapshots]
    exact exact.ownersLive snapshot owned

theorem RefcountExact.putChunk {tables : Tables} (exact : RefcountExact tables) (id : ChunkId)
    (data : Bytes) (fresh : id ∉ tables.chunks) : RefcountExact (indexChunk tables id data) := by
  refine exact.of_chunks rfl rfl rfl (fun other entry found => ?_) fun other entry found _ => ?_
  · simp only [indexChunk, chunkEntry_insert] at found
    split at found
    next same =>
      cases found
      exact .inr ⟨same ▸ fresh, rfl⟩
    next different => exact .inl found
  · exact ExtTreeMap.mem_insert.mpr (.inr (mem_chunks_iff_chunkEntry.mpr ⟨entry, found⟩))

theorem RefcountExact.deleteChunk {tables next : Tables} (exact : RefcountExact tables)
    {id : ChunkId} (deleted : Store.deleteChunk tables id = .ok next) : RefcountExact next := by
  rcases deleteChunk_ok deleted with ⟨entry, found, unreferenced, rfl⟩
  refine exact.of_chunks rfl rfl rfl (fun other otherEntry otherFound => ?_)
    fun other otherEntry otherFound positive => ?_
  · rw [chunkEntry_erase] at otherFound
    split at otherFound
    next same => cases otherFound
    next different => exact .inl otherFound
  · have different : id ≠ other := by
      rintro rfl
      rw [found] at otherFound
      cases otherFound
      omega
    rw [mem_chunks_iff_chunkEntry, chunkEntry_erase, if_neg different]
    exact ⟨otherEntry, otherFound⟩

theorem RefcountExact.gc {tables : Tables} (exact : RefcountExact tables) (nowMs : Int64)
    (grace : Duration) : RefcountExact (Store.gc tables nowMs grace).tables := by
  refine exact.of_chunks rfl rfl rfl (fun id entry found => ?_) fun id entry found positive => ?_
  · rw [chunkEntry_gc] at found
    split at found
    next expired => cases found
    next kept => exact .inl found
  · rw [mem_chunks_iff_chunkEntry, chunkEntry_gc]
    have kept : ¬ Expired tables nowMs grace id := by
      rintro ⟨expiredEntry, _, expiredFound, zero, _, _⟩
      rw [found] at expiredFound
      cases expiredFound
      simp [zero] at positive
    exact ⟨entry, by rw [if_neg kept, found]⟩

theorem mem_recordOwner_iff {owners : ExtTreeMap Ulid String} {snapshot other : Ulid}
    {owner : Option String} :
    other ∈ recordOwner owners snapshot owner ↔
      other ∈ owners ∨ owner.isSome ∧ snapshot = other := by
  cases owner with
  | none => simp [recordOwner]
  | some name => simp [recordOwner, ExtTreeMap.mem_insert, or_comm]

theorem RefcountExact.putSnapshotAs {tables next : Tables} (exact : RefcountExact tables)
    {snapshot : Ulid} {blob : Bytes} {refs : List ChunkId} {owner : Option String}
    (stored : Store.putSnapshotAs tables snapshot blob refs owner = .ok next)
    (fits : (liveRefs next).length < 2 ^ 64) : RefcountExact next := by
  rcases putSnapshotAs_ok stored with ⟨fresh, chunks, taken, same⟩
  rcases bumpRefs_ok taken with ⟨indexed, entries⟩
  have moved : (liveRefs next).Perm (refs ++ liveRefs tables) :=
    liveRefs_insert_perm fresh (by rw [same]) (by rw [same])
  subst same
  refine ⟨fun id entry found => ?_, fun id membership => ?_, fun other => ?_,
    fun other owned => ?_⟩
  · have bound := Nat.lt_of_le_of_lt (List.count_le_length (a := id)) fits
    rw [moved.count_eq, List.count_append] at bound ⊢
    simp only [entries, Option.map_eq_some_iff] at found
    rcases found with ⟨before, foundBefore, rfl⟩
    rw [toNat_refcount_bumpBy, exact.counted id before foundBefore]
    omega
  · have before : id ∈ tables.chunks := by
      rcases List.mem_append.mp (moved.mem_iff.mp membership) with inRefs | wasLive
      · exact indexed id inRefs
      · exact exact.referenced id wasLive
    rcases mem_chunks_iff_chunkEntry.mp before with ⟨entry, found⟩
    exact mem_chunks_iff_chunkEntry.mpr ⟨_, by rw [entries, found]; rfl⟩
  · simp only [ExtTreeMap.mem_insert, exact.refsLive]
  · rw [ExtTreeMap.mem_insert, LawfulEqOrd.compare_eq_iff_eq]
    rcases mem_recordOwner_iff.mp owned with before | ⟨_, same⟩
    · exact .inr (exact.ownersLive other before)
    · exact .inl same

theorem RefcountExact.deleteSnapshot {tables next : Tables} (exact : RefcountExact tables)
    {snapshot : Ulid} (deleted : Store.deleteSnapshot tables snapshot = .ok next) :
    RefcountExact next := by
  rcases deleteSnapshot_ok deleted with ⟨live, same⟩
  have moved : (liveRefs tables).Perm (tables.refsOf snapshot ++ liveRefs next) :=
    liveRefs_erase_perm live (by rw [same]) (by rw [same])
  subst same
  refine ⟨fun id entry found => ?_, fun id membership => ?_, fun other => ?_,
    fun other owned => ?_⟩
  · simp only [chunkEntry_dropRefs, Option.map_eq_some_iff] at found
    rcases found with ⟨before, foundBefore, rfl⟩
    rw [toNat_refcount_dropBy, exact.counted id before foundBefore, moved.count_eq,
      List.count_append]
    omega
  · have wasLive : id ∈ liveRefs tables :=
      moved.mem_iff.mpr (List.mem_append.mpr (.inr membership))
    exact (mem_dropRefs_iff _ _ _).mpr (exact.referenced id wasLive)
  · simp only [ExtTreeMap.mem_erase, exact.refsLive]
  · rcases ExtTreeMap.mem_erase.mp owned with ⟨different, before⟩
    exact ExtTreeMap.mem_erase.mpr ⟨different, exact.ownersLive other before⟩

/-- Every transaction keeps the counts exact, as long as the live references
fit a counter afterwards. -/
theorem RefcountExact.commit {tables : Tables} (exact : RefcountExact tables)
    (transaction : Transaction)
    (fits : (liveRefs (transaction.commit tables)).length < 2 ^ 64) :
    RefcountExact (transaction.commit tables) := by
  cases outcome : transaction.result tables with
  | error error => rwa [Transaction.commit_of_error outcome]
  | ok next =>
      rw [Transaction.commit_of_ok outcome] at fits ⊢
      cases transaction with
      | putChunk id data =>
          cases outcome
          split
          next occupied => exact exact
          next fresh => exact exact.putChunk id data fresh
      | putSnapshotAs snapshot blob refs owner => exact exact.putSnapshotAs outcome fits
      | deleteSnapshot snapshot => exact exact.deleteSnapshot outcome
      | deleteChunk id => exact exact.deleteChunk outcome
      | gc nowMs grace =>
          cases outcome
          exact exact.gc nowMs grace
      | recordPrune nowMs mode =>
          cases outcome
          exact exact.of_chunks rfl rfl rfl (fun _ _ found => .inl found)
            fun id entry found _ => mem_chunks_iff_chunkEntry.mpr ⟨entry, found⟩

/-- In `delete_snapshot` every reference finds its index entry with a count
to drop: the skipping branch is not taken and no count saturates at zero. -/
theorem RefcountExact.dropRefs_never_skips {tables : Tables} (exact : RefcountExact tables)
    {snapshot : Ulid} (live : snapshot ∈ tables.snapshots) {before after : List ChunkId}
    {chunk : ChunkId} (split : tables.refsOf snapshot = before ++ chunk :: after) :
    ∃ entry, chunkEntry (dropRefs before tables.chunks) chunk = some entry ∧
      0 < entry.refcount.toNat := by
  have occurs := count_refsOf_le live chunk
  rw [split, List.count_append, List.count_cons_self] at occurs
  have wasLive : chunk ∈ liveRefs tables := List.count_pos_iff.mp (by omega)
  rcases mem_chunks_iff_chunkEntry.mp (exact.referenced chunk wasLive) with ⟨entry, found⟩
  refine ⟨dropBy (before.count chunk) entry, by simp [chunkEntry_dropRefs, found], ?_⟩
  rw [toNat_refcount_dropBy, exact.counted chunk entry found]
  omega

/-- In `put_snapshot_as` no count saturates when the live references and the
new ones together fit a counter. -/
theorem RefcountExact.bumpRefs_never_saturates {tables : Tables} (exact : RefcountExact tables)
    {snapshot : Ulid} {before after : List ChunkId} {chunk : ChunkId} {chunks : ChunkTable}
    {entry : IndexEntry}
    (fits : (liveRefs tables).length + (before ++ chunk :: after).length < 2 ^ 64)
    (taken : bumpRefs snapshot before tables.chunks = .ok chunks)
    (found : chunkEntry chunks chunk = some entry) :
    entry.refcount.toNat + 1 < 2 ^ 64 := by
  rw [(bumpRefs_ok taken).2, Option.map_eq_some_iff] at found
  rcases found with ⟨first, foundFirst, rfl⟩
  have liveBound : (liveRefs tables).count chunk ≤ (liveRefs tables).length :=
    List.count_le_length
  have beforeBound : before.count chunk ≤ before.length := List.count_le_length
  rw [toNat_refcount_bumpBy, exact.counted chunk first foundFirst]
  simp only [List.length_append, List.length_cons] at fits
  omega

end Busyncr.Store
