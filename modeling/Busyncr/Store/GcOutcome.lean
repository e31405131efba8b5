import Busyncr.Store.Gc

/-!
What a gc run reports and leaves behind, whatever order its hash maps are
iterated in.

The chunks it waits for are those it had marked and those it marks now;
together they are the unreferenced chunks that stay, which is what the mark
table lists afterwards and what the run counts as pending.  The byte count
is kept in 64 bits, as the daemon keeps it.
-/

namespace Busyncr.Store

open Std

/-- What a finished gc reports. -/
structure GcOutcome where
  reclaimed : List ChunkId
  bytesReclaimed : UInt64
  pending : Nat
deriving DecidableEq

/-- The report of a run whose files were all unlinked. -/
def GcCommit.outcome (committed : GcCommit) : GcOutcome where
  reclaimed := committed.reclaimed.map Prod.fst
  bytesReclaimed := committed.reclaimed.foldl (fun total item => total + item.2) 0
  pending := committed.pending

theorem GcCommit.bytesReclaimed_outcome (committed : GcCommit) :
    committed.outcome.bytesReclaimed =
      UInt64.ofNat ((committed.reclaimed.map fun item => item.2.toNat).sum) := by
  simpa [GcCommit.outcome] using Saturating.foldl_add_eq Prod.snd committed.reclaimed 0

/-- Chunks whose refcount is zero. -/
def zeroRefChunks (tables : Tables) : List ChunkId :=
  ((indexEntries tables).filter fun item => item.2.refcount = 0).map Prod.fst

theorem mem_zeroRefChunks_iff {tables : Tables} {id : ChunkId} :
    id ∈ zeroRefChunks tables ↔
      ∃ entry, chunkEntry tables.chunks id = some entry ∧ entry.refcount = 0 := by
  simp [zeroRefChunks, mem_indexEntries_iff]

theorem nodup_indexEntries (tables : Tables) : ((indexEntries tables).map Prod.fst).Nodup := by
  have keys : (indexEntries tables).map Prod.fst = tables.chunks.keys := by
    rw [← ExtTreeMap.map_fst_toList_eq_keys, indexEntries, List.map_map]
    rfl
  rw [keys]
  exact ExtTreeMap.nodup_keys

theorem nodup_existingMarks (tables : Tables) : ((existingMarks tables).map Prod.fst).Nodup := by
  have keys : (existingMarks tables).map Prod.fst = tables.gcMarks.keys := by
    rw [← ExtTreeMap.map_fst_toList_eq_keys, existingMarks, List.map_map]
    rfl
  rw [keys]
  exact ExtTreeMap.nodup_keys

theorem nodup_zeroRefChunks (tables : Tables) : (zeroRefChunks tables).Nodup :=
  (nodup_indexEntries tables).sublist (List.filter_sublist.map Prod.fst)

theorem fst_of_reclaimOf {chunks : ChunkTable} {nowMs graceMs : Int64}
    {mark : ChunkId × Int64} {item : ChunkId × UInt64}
    (found : reclaimOf chunks nowMs graceMs mark = some item) : item.1 = mark.1 := by
  unfold reclaimOf at found
  split at found
  next => cases found; rfl
  next => cases found
  next => cases found

section Run

variable (tables : Tables) (nowMs : Int64) (grace : Duration)

/-- The unreferenced chunks that were marked and stay. -/
def waitingMarks : List ChunkId :=
  ((existingMarks tables).filter fun mark =>
    markFate tables.chunks nowMs (graceMillis grace) mark.1 mark.2 = .wait).map Prod.fst

theorem mem_waitingMarks_iff {id : ChunkId} : id ∈ waitingMarks tables nowMs grace ↔
    ∃ entry markedAt, chunkEntry tables.chunks id = some entry ∧ entry.refcount = 0 ∧
      markOf tables.gcMarks id = some markedAt ∧
      ¬ graceMillis grace ≤ Saturating.signedSub nowMs markedAt := by
  simp only [waitingMarks, List.mem_map, List.mem_filter, decide_eq_true_eq,
    markFate_eq_wait_iff, Prod.exists, mem_existingMarks_iff]
  grind

theorem pending_gc : (gc tables nowMs grace).pending =
    (waitingMarks tables nowMs grace ++ startedMarks tables).length := by
  simp [gc, gcWith, reconcileMarks_eq, markNew_eq, waitingMarks, startedMarks,
    List.countP_eq_length_filter]

theorem nodup_waiting_started :
    (waitingMarks tables nowMs grace ++ startedMarks tables).Nodup := by
  refine List.nodup_append.mpr ⟨?_, ?_, ?_⟩
  · exact (nodup_existingMarks tables).sublist (List.filter_sublist.map Prod.fst)
  · exact (nodup_indexEntries tables).sublist (List.filter_sublist.map Prod.fst)
  · rintro id waits other starts rfl
    obtain ⟨_, markedAt, _, _, marked, _⟩ := (mem_waitingMarks_iff tables nowMs grace).mp waits
    obtain ⟨_, _, _, unmarked⟩ := (mem_startedMarks_iff tables).mp starts
    rw [unmarked] at marked
    cases marked

/-- The unreferenced chunks that stay are those the run waits for. -/
theorem mem_zeroRefChunks_gc_iff {id : ChunkId} :
    id ∈ zeroRefChunks (gc tables nowMs grace).tables ↔
      id ∈ waitingMarks tables nowMs grace ++ startedMarks tables := by
  rw [mem_zeroRefChunks_iff, List.mem_append, mem_waitingMarks_iff, mem_startedMarks_iff]
  simp only [chunkEntry_gc]
  constructor
  · rintro ⟨entry, found, zero⟩
    split at found
    next => cases found
    next alive =>
      cases marked : markOf tables.gcMarks id with
      | none => exact .inr ⟨entry, found, zero, rfl⟩
      | some markedAt =>
          refine .inl ⟨entry, markedAt, found, zero, rfl, fun elapsed => alive ?_⟩
          exact ⟨entry, markedAt, found, zero, marked, elapsed⟩
  · rintro (⟨entry, markedAt, found, zero, marked, waits⟩ | ⟨entry, found, zero, unmarked⟩)
    · refine ⟨entry, ?_, zero⟩
      rw [if_neg, found]
      rintro ⟨_, other, _, _, otherMarked, elapsed⟩
      rw [marked] at otherMarked
      cases otherMarked
      exact waits elapsed
    · refine ⟨entry, ?_, zero⟩
      rw [if_neg, found]
      rintro ⟨_, other, _, _, otherMarked, _⟩
      rw [unmarked] at otherMarked
      cases otherMarked

theorem pending_gc_eq : (gc tables nowMs grace).pending =
    (zeroRefChunks (gc tables nowMs grace).tables).length := by
  rw [pending_gc]
  apply List.Perm.length_eq
  refine (List.perm_ext_iff_of_nodup (nodup_waiting_started tables nowMs grace)
    (nodup_zeroRefChunks _)).mpr fun id => ?_
  exact (mem_zeroRefChunks_gc_iff tables nowMs grace).symm

/-- A mark afterwards is the one the chunk had, or starts now. -/
theorem markOf_gc_iff {id : ChunkId} {time : Int64} :
    markOf (gc tables nowMs grace).tables.gcMarks id = some time ↔
      id ∈ zeroRefChunks (gc tables nowMs grace).tables ∧
        time = (markOf tables.gcMarks id).getD nowMs := by
  rw [mem_zeroRefChunks_gc_iff, List.mem_append, mem_waitingMarks_iff, mem_startedMarks_iff,
    markOf_gc, markAfterGc]
  cases found : chunkEntry tables.chunks id with
  | none => simp
  | some entry =>
      cases marked : markOf tables.gcMarks id with
      | none => by_cases zero : entry.refcount = 0 <;> simp [zero, eq_comm]
      | some markedAt =>
          by_cases zero : entry.refcount = 0
          · by_cases elapsed : graceMillis grace ≤ Saturating.signedSub nowMs markedAt
            · simp [zero, elapsed]
            · simp [zero, elapsed, Int64.not_le.mp elapsed, eq_comm]
          · simp [zero]

/-- No chunk is unlinked twice. -/
theorem nodup_reclaimed_gc : ((gc tables nowMs grace).reclaimed.map Prod.fst).Nodup := by
  have keys : (gc tables nowMs grace).reclaimed.map Prod.fst =
      ((existingMarks tables).filter fun mark =>
        (reclaimOf tables.chunks nowMs (graceMillis grace) mark).isSome).map Prod.fst := by
    simp only [gc, gcWith, reconcileMarks_eq, List.nil_append]
    induction existingMarks tables with
    | nil => rfl
    | cons mark rest inductionHypothesis =>
        cases found : reclaimOf tables.chunks nowMs (graceMillis grace) mark with
        | none => simp [found, inductionHypothesis]
        | some item => simp [found, inductionHypothesis, fst_of_reclaimOf found]
  rw [keys]
  exact (nodup_existingMarks tables).sublist (List.filter_sublist.map Prod.fst)

/-- The length the index holds for a chunk. -/
def indexedLen (id : ChunkId) : Nat :=
  ((chunkEntry tables.chunks id).map fun entry => entry.chunkLen.toNat).getD 0

theorem bytesReclaimed_gc : (gc tables nowMs grace).outcome.bytesReclaimed =
    UInt64.ofNat (((gc tables nowMs grace).outcome.reclaimed.map (indexedLen tables)).sum) := by
  rw [GcCommit.bytesReclaimed_outcome, GcCommit.outcome, List.map_map]
  congr 2
  apply List.map_congr_left
  rintro ⟨id, chunkLen⟩ deleted
  rcases mem_toDelete_reconcileMarks.mp deleted with impossible | ⟨markedAt, _, fate⟩
  · simp at impossible
  · obtain ⟨entry, found, _, rfl, _⟩ := markFate_eq_reclaim_iff.mp fate
    simp [indexedLen, found]

/-- The enumerations of the two hash maps only permute what is reclaimed. -/
theorem gcWith_perm {existing : List (ChunkId × Int64)} {entries : List (ChunkId × IndexEntry)}
    (marks : existing.Perm (existingMarks tables)) (index : entries.Perm (indexEntries tables)) :
    (gcWith existing entries tables nowMs grace).tables = (gc tables nowMs grace).tables ∧
      (gcWith existing entries tables nowMs grace).reclaimed.Perm
        (gc tables nowMs grace).reclaimed ∧
      (gcWith existing entries tables nowMs grace).pending = (gc tables nowMs grace).pending := by
  simp only [gc, gcWith, reconcileMarks_eq, markNew_eq, List.nil_append]
  refine ⟨?_, marks.filterMap _, ?_⟩
  · rw [OrderedTable.eraseAll_perm ((marks.filterMap _).map Prod.fst),
      OrderedTable.eraseAll_perm ((marks.filter _).map Prod.fst),
      OrderedTable.insertAll_perm ((index.filter _).map Prod.fst)]
  · rw [marks.countP_eq, index.countP_eq]

/-- A mark that stands after the run has not expired by it. -/
theorem not_expired_gc (positive : 1 ≤ grace.asMillis) (id : ChunkId) :
    ¬ Expired (gc tables nowMs grace).tables nowMs grace id := by
  rintro ⟨entry, time, found, zero, marked, elapsed⟩
  rw [markOf_gc_iff] at marked
  obtain ⟨stays, rfl⟩ := marked
  rw [mem_zeroRefChunks_gc_iff, List.mem_append, mem_waitingMarks_iff, mem_startedMarks_iff]
    at stays
  rcases stays with ⟨_, markedAt, _, _, marked, waits⟩ | ⟨_, _, _, unmarked⟩
  · rw [marked] at elapsed
    exact waits elapsed
  · rw [unmarked] at elapsed
    rw [Int64.le_iff_toInt_le, toInt_graceMillis] at elapsed
    rw [Option.getD_none, Saturating.le_toInt_signedSub_iff] at elapsed <;> omega

/-- A second run at the same time finds nothing to do. -/
theorem gc_gc (positive : 1 ≤ grace.asMillis) :
    (gc (gc tables nowMs grace).tables nowMs grace).tables = (gc tables nowMs grace).tables := by
  have settled := not_expired_gc tables nowMs grace positive
  have index : (gc (gc tables nowMs grace).tables nowMs grace).tables.chunks =
      (gc tables nowMs grace).tables.chunks := by
    apply ExtTreeMap.ext_getElem?
    intro id
    rw [chunks_gc, if_neg (settled id)]
  have started : ∀ id, id ∉ startedMarks (gc tables nowMs grace).tables := by
    intro id starts
    obtain ⟨entry, found, zero, unmarked⟩ := (mem_startedMarks_iff _).mp starts
    have marked := (markOf_gc_iff tables nowMs grace).mpr
      ⟨mem_zeroRefChunks_iff.mpr ⟨entry, found, zero⟩, rfl⟩
    rw [unmarked] at marked
    cases marked
  have ended : ∀ id, id ∉ endedMarks (gc tables nowMs grace).tables nowMs grace := by
    intro id ends
    obtain ⟨time, marked, fate⟩ := (mem_endedMarks_iff _ nowMs grace).mp ends
    obtain ⟨stays, _⟩ := (markOf_gc_iff tables nowMs grace).mp marked
    obtain ⟨entry, found, zero⟩ := mem_zeroRefChunks_iff.mp stays
    refine fate (markFate_eq_wait_iff.mpr ⟨entry, found, zero, fun elapsed => ?_⟩)
    exact settled id ⟨entry, time, found, zero, marked, elapsed⟩
  have marks : (gc (gc tables nowMs grace).tables nowMs grace).tables.gcMarks =
      (gc tables nowMs grace).tables.gcMarks := by
    apply ExtTreeMap.ext_getElem?
    intro id
    rw [gcMarks_gc, if_neg (started id), if_neg (ended id)]
  have recorded : (gc (gc tables nowMs grace).tables nowMs grace).tables.statusMeta =
      (gc tables nowMs grace).tables.statusMeta :=
    OrderedTable.insert_insert _ _ _ _
  rw [Tables.mk.injEq]
  exact ⟨index, rfl, rfl, marks, rfl, recorded⟩

/-- What is reclaimed has been marked for the whole grace period, whichever
way the clock went. -/
theorem exists_mark_of_expired {id : ChunkId} (expired : Expired tables nowMs grace id) :
    ∃ markedAt, markOf tables.gcMarks id = some markedAt ∧
      markedAt.toInt + min (grace.asMillis : Int) (2 ^ 63 - 1) ≤ nowMs.toInt := by
  obtain ⟨_, markedAt, _, _, marked, elapsed⟩ := expired
  refine ⟨markedAt, marked, ?_⟩
  rw [Int64.le_iff_toInt_le, toInt_graceMillis, Saturating.le_toInt_signedSub_iff] at elapsed <;>
    omega

end Run

/-- What one gc run has to leave behind and to report. -/
structure GcMeets (tables : Tables) (nowMs : Int64) (grace : Duration) (committed : GcCommit) :
    Prop where
  once : committed.outcome.reclaimed.Nodup
  reclaimed : ∀ id, id ∈ committed.outcome.reclaimed ↔ Expired tables nowMs grace id
  bytesReclaimed : committed.outcome.bytesReclaimed =
    UInt64.ofNat ((committed.outcome.reclaimed.map (indexedLen tables)).sum)
  index : ∀ id : ChunkId, committed.tables.chunks[id]? =
    if Expired tables nowMs grace id then none else tables.chunks[id]?
  marks : ∀ (id : ChunkId) (time : Int64), markOf committed.tables.gcMarks id = some time ↔
    id ∈ zeroRefChunks committed.tables ∧ time = (markOf tables.gcMarks id).getD nowMs
  pending : committed.outcome.pending = (zeroRefChunks committed.tables).length
  snapshots : committed.tables.snapshots = tables.snapshots
  snapshotRefs : committed.tables.snapshotRefs = tables.snapshotRefs
  snapshotOwner : committed.tables.snapshotOwner = tables.snapshotOwner

theorem gc_meets (tables : Tables) (nowMs : Int64) (grace : Duration) :
    GcMeets tables nowMs grace (gc tables nowMs grace) where
  once := nodup_reclaimed_gc tables nowMs grace
  reclaimed := mem_reclaimed_gc_iff tables nowMs grace
  bytesReclaimed := bytesReclaimed_gc tables nowMs grace
  index := chunks_gc tables nowMs grace
  marks _ _ := markOf_gc_iff tables nowMs grace
  pending := pending_gc_eq tables nowMs grace
  snapshots := rfl
  snapshotRefs := rfl
  snapshotOwner := rfl

/-- A run with the same tables and a permuted report meets the same
specification. -/
theorem GcMeets.of_perm {tables : Tables} {nowMs : Int64} {grace : Duration}
    {committed other : GcCommit} (meets : GcMeets tables nowMs grace committed)
    (sameTables : other.tables = committed.tables)
    (permuted : other.reclaimed.Perm committed.reclaimed)
    (samePending : other.pending = committed.pending) : GcMeets tables nowMs grace other := by
  have ids : other.outcome.reclaimed.Perm committed.outcome.reclaimed := permuted.map Prod.fst
  have bytes : other.outcome.bytesReclaimed = committed.outcome.bytesReclaimed := by
    rw [GcCommit.bytesReclaimed_outcome, GcCommit.bytesReclaimed_outcome,
      (permuted.map fun item => item.2.toNat).sum_nat]
  constructor
  case once => exact ids.nodup_iff.mpr meets.once
  case reclaimed => exact fun id => ids.mem_iff.trans (meets.reclaimed id)
  case bytesReclaimed => rw [bytes, meets.bytesReclaimed, (ids.map (indexedLen tables)).sum_nat]
  case index => rw [sameTables]; exact meets.index
  case marks => rw [sameTables]; exact meets.marks
  case pending => rw [sameTables, ← meets.pending]; exact samePending
  case snapshots => rw [sameTables, meets.snapshots]
  case snapshotRefs => rw [sameTables, meets.snapshotRefs]
  case snapshotOwner => rw [sameTables, meets.snapshotOwner]

/-- Every gc run meets its specification in whatever order the two hash maps
are iterated, and leaves the same tables; a second run at the same time
changes nothing when the grace period is at least a millisecond, and a chunk
is never reclaimed before its grace period is over. -/
theorem gc_specification (tables : Tables) (nowMs : Int64) (grace : Duration) :
    (∀ (existing : List (ChunkId × Int64)) (entries : List (ChunkId × IndexEntry)),
      existing.Perm (existingMarks tables) → entries.Perm (indexEntries tables) →
        GcMeets tables nowMs grace (gcWith existing entries tables nowMs grace) ∧
          (gcWith existing entries tables nowMs grace).tables = (gc tables nowMs grace).tables) ∧
      (1 ≤ grace.asMillis →
        (gc (gc tables nowMs grace).tables nowMs grace).tables =
          (gc tables nowMs grace).tables) ∧
      ∀ id ∈ (gc tables nowMs grace).outcome.reclaimed, ∃ markedAt,
        markOf tables.gcMarks id = some markedAt ∧
          markedAt.toInt + min (grace.asMillis : Int) (2 ^ 63 - 1) ≤ nowMs.toInt := by
  refine ⟨?_, gc_gc tables nowMs grace, ?_⟩
  · intro existing entries marks index
    obtain ⟨sameTables, permuted, samePending⟩ := gcWith_perm tables nowMs grace marks index
    exact ⟨(gc_meets tables nowMs grace).of_perm sameTables permuted samePending, sameTables⟩
  · intro id reclaimed
    apply exists_mark_of_expired
    exact (mem_reclaimed_gc_iff tables nowMs grace id).mp reclaimed

end Busyncr.Store
