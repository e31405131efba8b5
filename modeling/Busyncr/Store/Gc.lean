import Busyncr.Store.Tables

/-!
The mark-and-sweep transaction of `ChunkStore::gc`.

The two loops run over hash-map copies of the index and of the marks, so
they are given the enumerations they iterate over.  The specification does
not mention an order: `chunkEntry_gc` and `markOf_gc` say for each ID alone
what the transaction leaves behind.
-/

namespace Busyncr.Store

open Std

/-- What the reconciliation loop over the existing marks collects. -/
structure Reconciled where
  toDelete : List (ChunkId × UInt64)
  marksToRemove : List ChunkId
  pending : Nat

/-- What the loop decides for one existing mark: reclaim the chunk, let it
serve out its grace period, or drop a mark whose chunk is referenced again or
gone. -/
inductive MarkFate where
  | reclaim (chunkLen : UInt64)
  | wait
  | drop
deriving DecidableEq

def markFate (chunks : ChunkTable) (nowMs graceMs : Int64) (id : ChunkId) (markedAt : Int64) :
    MarkFate :=
  match chunkEntry chunks id with
  | some entry =>
      if entry.refcount = 0 then
        if graceMs ≤ Saturating.signedSub nowMs markedAt then .reclaim entry.chunkLen
        else .wait
      else .drop
  | none => .drop

/-- Reconcile existing marks against current refcounts. -/
def reconcileMarks (chunks : ChunkTable) (nowMs graceMs : Int64) :
    List (ChunkId × Int64) → Reconciled → Reconciled
  | [], collected => collected
  | (id, markedAt) :: rest, collected =>
      match markFate chunks nowMs graceMs id markedAt with
      | .reclaim chunkLen =>
          reconcileMarks chunks nowMs graceMs rest
            { collected with
              toDelete := collected.toDelete ++ [(id, chunkLen)]
              marksToRemove := collected.marksToRemove ++ [id] }
      | .wait =>
          reconcileMarks chunks nowMs graceMs rest
            { collected with pending := collected.pending + 1 }
      | .drop =>
          reconcileMarks chunks nowMs graceMs rest
            { collected with marksToRemove := collected.marksToRemove ++ [id] }

/-- Collect the newly unreferenced chunks, whose grace timer starts now. -/
def markNew (marks : MarkTable) :
    List (ChunkId × IndexEntry) → List ChunkId × Nat → List ChunkId × Nat
  | [], collected => collected
  | (id, entry) :: rest, (toInsert, pending) =>
      markNew marks rest <|
        if entry.refcount = 0 ∧ id ∉ marks then (toInsert ++ [id], pending + 1)
        else (toInsert, pending)

/-- The result of the committed transaction. -/
structure GcCommit where
  tables : Tables
  reclaimed : List (ChunkId × UInt64)
  pending : Nat

/-- The grace period in whole milliseconds, clamped to `i64::MAX`. -/
def graceMillis (grace : Duration) : Int64 := Int64.ofIntClamp grace.asMillis

theorem toInt_graceMillis (grace : Duration) :
    (graceMillis grace).toInt = min (grace.asMillis : Int) (2 ^ 63 - 1) := by
  rw [graceMillis, Saturating.toInt_ofIntClamp]
  omega

/-- The transaction for given enumerations of the marks and of the index. -/
def gcWith (existing : List (ChunkId × Int64)) (entries : List (ChunkId × IndexEntry))
    (tables : Tables) (nowMs : Int64) (grace : Duration) : GcCommit :=
  let reconciled := reconcileMarks tables.chunks nowMs (graceMillis grace) existing ⟨[], [], 0⟩
  let (marksToInsert, pending) := markNew tables.gcMarks entries ([], reconciled.pending)
  { tables :=
      { tables with
        chunks := OrderedTable.eraseAll (reconciled.toDelete.map Prod.fst) tables.chunks
        gcMarks := OrderedTable.insertAll marksToInsert (toLeBytes nowMs)
          (OrderedTable.eraseAll reconciled.marksToRemove tables.gcMarks)
        statusMeta := tables.statusMeta.insert lastGcKey (toLeBytes nowMs) }
    reclaimed := reconciled.toDelete
    pending := pending }

/-- The index read into memory. -/
def indexEntries (tables : Tables) : List (ChunkId × IndexEntry) :=
  tables.chunks.toList.map fun (id, raw) => (id, decodeEntry raw)

/-- The marks read into memory. -/
def existingMarks (tables : Tables) : List (ChunkId × Int64) :=
  tables.gcMarks.toList.map fun (id, raw) => (id, decodeMark raw)

/-- The mark-and-sweep transaction of one gc run. -/
def gc (tables : Tables) (nowMs : Int64) (grace : Duration) : GcCommit :=
  gcWith (existingMarks tables) (indexEntries tables) tables nowMs grace

theorem mem_indexEntries_iff {tables : Tables} {id : ChunkId} {entry : IndexEntry} :
    (id, entry) ∈ indexEntries tables ↔ chunkEntry tables.chunks id = some entry := by
  simp [indexEntries, chunkEntry]

theorem mem_existingMarks_iff {tables : Tables} {id : ChunkId} {time : Int64} :
    (id, time) ∈ existingMarks tables ↔ markOf tables.gcMarks id = some time := by
  simp [existingMarks, markOf]

/-- What one existing mark adds to the chunks to delete. -/
def reclaimOf (chunks : ChunkTable) (nowMs graceMs : Int64) (mark : ChunkId × Int64) :
    Option (ChunkId × UInt64) :=
  match markFate chunks nowMs graceMs mark.1 mark.2 with
  | .reclaim chunkLen => some (mark.1, chunkLen)
  | .wait => none
  | .drop => none

/-- The loop over the existing marks, mark by mark. -/
theorem reconcileMarks_eq (chunks : ChunkTable) (nowMs graceMs : Int64)
    (existing : List (ChunkId × Int64)) (collected : Reconciled) :
    reconcileMarks chunks nowMs graceMs existing collected =
      { toDelete := collected.toDelete ++ existing.filterMap (reclaimOf chunks nowMs graceMs)
        marksToRemove := collected.marksToRemove ++ (existing.filter fun mark =>
          markFate chunks nowMs graceMs mark.1 mark.2 ≠ .wait).map Prod.fst
        pending := collected.pending + existing.countP fun mark =>
          markFate chunks nowMs graceMs mark.1 mark.2 = .wait } := by
  induction existing generalizing collected with
  | nil => simp [reconcileMarks]
  | cons mark rest inductionHypothesis =>
      obtain ⟨id, markedAt⟩ := mark
      simp only [reconcileMarks]
      cases fate : markFate chunks nowMs graceMs id markedAt with
      | reclaim chunkLen => simp [inductionHypothesis, reclaimOf, fate]
      | wait => simp [inductionHypothesis, reclaimOf, fate, Nat.add_assoc, Nat.add_comm 1]
      | drop => simp [inductionHypothesis, reclaimOf, fate]

/-- The loop over the index, entry by entry. -/
theorem markNew_eq (marks : MarkTable) (entries : List (ChunkId × IndexEntry))
    (collected : List ChunkId × Nat) :
    markNew marks entries collected =
      (collected.1 ++ (entries.filter fun item =>
          item.2.refcount = 0 ∧ item.1 ∉ marks).map Prod.fst,
        collected.2 + entries.countP fun item => item.2.refcount = 0 ∧ item.1 ∉ marks) := by
  induction entries generalizing collected with
  | nil => simp [markNew]
  | cons item rest inductionHypothesis =>
      obtain ⟨id, entry⟩ := item
      obtain ⟨toInsert, pending⟩ := collected
      simp only [markNew]
      split
      next starts => simp [inductionHypothesis, starts, Nat.add_assoc, Nat.add_comm 1]
      next stays => rw [inductionHypothesis]; simp [stays]

theorem mem_toDelete_reconcileMarks {chunks : ChunkTable} {nowMs graceMs : Int64}
    {existing : List (ChunkId × Int64)} {collected : Reconciled} {id : ChunkId}
    {chunkLen : UInt64} :
    (id, chunkLen) ∈ (reconcileMarks chunks nowMs graceMs existing collected).toDelete ↔
      (id, chunkLen) ∈ collected.toDelete ∨
        ∃ markedAt, (id, markedAt) ∈ existing ∧
          markFate chunks nowMs graceMs id markedAt = .reclaim chunkLen := by
  have reclaims : ∀ mark, reclaimOf chunks nowMs graceMs mark = some (id, chunkLen) ↔
      mark.1 = id ∧ markFate chunks nowMs graceMs id mark.2 = .reclaim chunkLen := by
    rintro ⟨marked, markedAt⟩
    unfold reclaimOf
    by_cases same : marked = id
    · subst same
      cases fate : markFate chunks nowMs graceMs marked markedAt <;> simp
    · cases fate : markFate chunks nowMs graceMs marked markedAt <;> simp [same]
  rw [reconcileMarks_eq, List.mem_append, List.mem_filterMap]
  simp only [reclaims, Prod.exists]
  grind

/-- A chunk this run reclaims: unreferenced, and marked at least a grace
period ago. -/
def Expired (tables : Tables) (nowMs : Int64) (grace : Duration) (id : ChunkId) : Prop :=
  ∃ entry markedAt, chunkEntry tables.chunks id = some entry ∧ entry.refcount = 0 ∧
    markOf tables.gcMarks id = some markedAt ∧
    graceMillis grace ≤ Saturating.signedSub nowMs markedAt

theorem markFate_eq_reclaim_iff {chunks : ChunkTable} {nowMs graceMs : Int64} {id : ChunkId}
    {markedAt : Int64} {chunkLen : UInt64} :
    markFate chunks nowMs graceMs id markedAt = .reclaim chunkLen ↔
      ∃ entry, chunkEntry chunks id = some entry ∧ entry.refcount = 0 ∧
        entry.chunkLen = chunkLen ∧ graceMs ≤ Saturating.signedSub nowMs markedAt := by
  unfold markFate
  cases found : chunkEntry chunks id with
  | none => simp
  | some entry =>
      by_cases unreferenced : entry.refcount = 0
      · by_cases elapsed : graceMs ≤ Saturating.signedSub nowMs markedAt <;>
          simp [unreferenced, elapsed]
      · simp [unreferenced]

theorem markFate_eq_wait_iff {chunks : ChunkTable} {nowMs graceMs : Int64} {id : ChunkId}
    {markedAt : Int64} :
    markFate chunks nowMs graceMs id markedAt = .wait ↔
      ∃ entry, chunkEntry chunks id = some entry ∧ entry.refcount = 0 ∧
        ¬ graceMs ≤ Saturating.signedSub nowMs markedAt := by
  unfold markFate
  cases found : chunkEntry chunks id with
  | none => simp
  | some entry =>
      by_cases unreferenced : entry.refcount = 0
      · by_cases elapsed : graceMs ≤ Saturating.signedSub nowMs markedAt <;>
          simp [unreferenced, elapsed]
      · simp [unreferenced]

section Specification

variable (tables : Tables) (nowMs : Int64) (grace : Duration)

/-- The reclaimed chunks are exactly the expired ones. -/
theorem mem_reclaimed_gc_iff (id : ChunkId) :
    id ∈ (gc tables nowMs grace).reclaimed.map Prod.fst ↔ Expired tables nowMs grace id := by
  constructor
  · intro membership
    rcases List.mem_map.mp membership with ⟨⟨_, chunkLen⟩, deleted, rfl⟩
    rcases mem_toDelete_reconcileMarks.mp deleted with impossible | ⟨markedAt, marked, fate⟩
    · simp at impossible
    · rcases markFate_eq_reclaim_iff.mp fate with ⟨entry, found, unreferenced, _, elapsed⟩
      exact ⟨entry, markedAt, found, unreferenced, mem_existingMarks_iff.mp marked, elapsed⟩
  · rintro ⟨entry, markedAt, found, unreferenced, marked, elapsed⟩
    refine List.mem_map.mpr ⟨(id, entry.chunkLen), ?_, rfl⟩
    refine mem_toDelete_reconcileMarks.mpr (.inr ⟨markedAt, mem_existingMarks_iff.mpr marked, ?_⟩)
    exact markFate_eq_reclaim_iff.mpr ⟨entry, found, unreferenced, rfl, elapsed⟩

instance (id : ChunkId) : Decidable (Expired tables nowMs grace id) :=
  decidable_of_iff _ (mem_reclaimed_gc_iff tables nowMs grace id)

/-- The index after the transaction: the expired chunks are gone, every other
entry is unchanged. -/
theorem chunks_gc (id : ChunkId) :
    (gc tables nowMs grace).tables.chunks[id]? =
      if Expired tables nowMs grace id then none else tables.chunks[id]? := by
  have lookup : (gc tables nowMs grace).tables.chunks[id]? =
      if id ∈ (gc tables nowMs grace).reclaimed.map Prod.fst then none
      else tables.chunks[id]? :=
    OrderedTable.getElem?_eraseAll _ _ _
  simp only [lookup, mem_reclaimed_gc_iff]

theorem chunkEntry_gc (id : ChunkId) :
    chunkEntry (gc tables nowMs grace).tables.chunks id =
      if Expired tables nowMs grace id then none else chunkEntry tables.chunks id := by
  unfold chunkEntry
  rw [chunks_gc]
  split <;> rfl

/-- The mark table after the transaction, chunk by chunk: a mark survives on
an unreferenced chunk inside its grace period, and an unmarked unreferenced
chunk is marked now. -/
def markAfterGc (id : ChunkId) : Option Int64 :=
  match chunkEntry tables.chunks id with
  | none => none
  | some entry =>
      if entry.refcount = 0 then
        match markOf tables.gcMarks id with
        | none => some nowMs
        | some markedAt =>
            if graceMillis grace ≤ Saturating.signedSub nowMs markedAt then none
            else some markedAt
      else none

/-- The chunks whose grace timer starts with this run. -/
def startedMarks : List ChunkId :=
  ((indexEntries tables).filter fun item =>
    item.2.refcount = 0 ∧ item.1 ∉ tables.gcMarks).map Prod.fst

/-- The chunks whose mark ends with this run. -/
def endedMarks : List ChunkId :=
  ((existingMarks tables).filter fun mark =>
    markFate tables.chunks nowMs (graceMillis grace) mark.1 mark.2 ≠ .wait).map Prod.fst

theorem mem_startedMarks_iff {id : ChunkId} : id ∈ startedMarks tables ↔
    ∃ entry, chunkEntry tables.chunks id = some entry ∧ entry.refcount = 0 ∧
      markOf tables.gcMarks id = none := by
  simp [startedMarks, mem_indexEntries_iff, markOf]

theorem mem_endedMarks_iff {id : ChunkId} : id ∈ endedMarks tables nowMs grace ↔
    ∃ markedAt, markOf tables.gcMarks id = some markedAt ∧
      markFate tables.chunks nowMs (graceMillis grace) id markedAt ≠ .wait := by
  simp [endedMarks, mem_existingMarks_iff]

/-- The mark table after the transaction, in its own bytes. -/
theorem gcMarks_gc (id : ChunkId) :
    (gc tables nowMs grace).tables.gcMarks[id]? =
      if id ∈ startedMarks tables then some (toLeBytes nowMs)
      else if id ∈ endedMarks tables nowMs grace then none else tables.gcMarks[id]? := by
  simp only [gc, gcWith, reconcileMarks_eq, markNew_eq, List.nil_append]
  rw [OrderedTable.getElem?_insertAll, OrderedTable.getElem?_eraseAll]
  rfl

theorem markOf_gc (id : ChunkId) :
    markOf (gc tables nowMs grace).tables.gcMarks id = markAfterGc tables nowMs grace id := by
  classical
  rw [markOf, gcMarks_gc, if_congr (mem_startedMarks_iff tables) rfl
    (if_congr (mem_endedMarks_iff tables nowMs grace) rfl rfl)]
  unfold markAfterGc
  cases marked : markOf tables.gcMarks id with
  | none =>
      have unmarked : tables.gcMarks[id]? = none := by
        simpa [markOf] using marked
      cases found : chunkEntry tables.chunks id with
      | none => simp [unmarked]
      | some entry =>
          by_cases unreferenced : entry.refcount = 0 <;> simp [unreferenced, unmarked]
  | some markedAt =>
      have kept : tables.gcMarks[id]?.map decodeMark = some markedAt := marked
      cases found : chunkEntry tables.chunks id with
      | none => simp [markFate, found]
      | some entry =>
          by_cases unreferenced : entry.refcount = 0
          · by_cases elapsed : graceMillis grace ≤ Saturating.signedSub nowMs markedAt <;>
              simp [markFate, found, unreferenced, elapsed, kept]
          · simp [markFate, found, unreferenced]

end Specification

end Busyncr.Store
