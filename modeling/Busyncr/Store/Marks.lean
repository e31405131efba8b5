import Busyncr.Store.Transaction

/-!
How the grace marks move with the transactions.

Only gc writes `GC_MARKS`, while the other transactions change what the
marks are about.  `RestartsTimer` names the two that leave a chunk newly
unreferenced under a mark that was set for an earlier period.
-/

namespace Busyncr.Store

open Std

/-- The chunk is indexed and nothing refers to it. -/
def Unreferenced (tables : Tables) (id : ChunkId) : Prop :=
  ∃ entry ∈ chunkEntry tables.chunks id, entry.refcount = 0

instance (tables : Tables) (id : ChunkId) : Decidable (Unreferenced tables id) :=
  inferInstanceAs (Decidable (∃ entry ∈ chunkEntry tables.chunks id, _))

/-- Marks exist for indexed chunks only. -/
def MarksIndexed (tables : Tables) : Prop := ∀ id ∈ tables.gcMarks, id ∈ tables.chunks

/-- The transaction leaves a chunk that carries a mark unreferenced, and it
was not so before: its last reference is dropped, or it is indexed anew. -/
def RestartsTimer (tables : Tables) : Transaction → Prop
  | .deleteSnapshot snapshot =>
      snapshot ∈ tables.snapshots ∧
        ∃ id ∈ tables.gcMarks.keys, ∃ entry ∈ chunkEntry tables.chunks id,
          0 < entry.refcount.toNat ∧
            entry.refcount.toNat ≤ (tables.refsOf snapshot).count id
  | .putChunk id _ => id ∉ tables.chunks ∧ id ∈ tables.gcMarks
  | _ => False

instance (tables : Tables) (transaction : Transaction) :
    Decidable (RestartsTimer tables transaction) :=
  match transaction with
  | .deleteSnapshot _ => inferInstanceAs (Decidable (_ ∧ ∃ id ∈ tables.gcMarks.keys, _))
  | .putChunk _ _ => inferInstanceAs (Decidable (_ ∧ _))
  | .putSnapshotAs _ _ _ _ => .isFalse id
  | .deleteChunk _ => .isFalse id
  | .gc _ _ => .isFalse id
  | .recordPrune _ _ => .isFalse id

theorem unreferenced_iff {tables : Tables} {id : ChunkId} :
    Unreferenced tables id ↔
      ∃ entry, chunkEntry tables.chunks id = some entry ∧ entry.refcount.toNat = 0 := by
  unfold Unreferenced
  constructor
  · rintro ⟨entry, found, zero⟩
    exact ⟨entry, found, by rw [zero]; rfl⟩
  · rintro ⟨entry, found, zero⟩
    exact ⟨entry, found, UInt64.toNat_inj.mp zero⟩

/-- Only gc changes a mark. -/
theorem gcMarks_commit {transaction : Transaction} {tables : Tables}
    (notGc : ∀ nowMs grace, transaction ≠ .gc nowMs grace) :
    (transaction.commit tables).gcMarks = tables.gcMarks := by
  refine Transaction.commit_cases (fun next => next.gcMarks = tables.gcMarks) rfl
    fun next outcome => ?_
  cases transaction with
  | putChunk chunk data =>
      cases outcome
      split <;> rfl
  | putSnapshotAs snapshot blob refs owner =>
      rcases putSnapshotAs_ok outcome with ⟨_, _, _, rfl⟩
      rfl
  | deleteSnapshot snapshot =>
      rcases deleteSnapshot_ok outcome with ⟨_, rfl⟩
      rfl
  | deleteChunk chunk =>
      rcases deleteChunk_ok outcome with ⟨_, _, _, rfl⟩
      rfl
  | gc nowMs grace => exact absurd rfl (notGc nowMs grace)
  | recordPrune nowMs mode =>
      cases outcome
      rfl

/-- A mark standing after gc is kept from before, or set by this run; its
chunk is indexed and unreferenced, before and after. -/
theorem markOf_gc_eq_some {tables : Tables} {nowMs : Int64} {grace : Duration} {id : ChunkId}
    {markedAt : Int64} (marked : markOf (gc tables nowMs grace).tables.gcMarks id = some markedAt) :
    (markOf tables.gcMarks id = some markedAt ∨
      markOf tables.gcMarks id = none ∧ markedAt = nowMs) ∧
      Unreferenced tables id ∧ Unreferenced (gc tables nowMs grace).tables id := by
  rw [markOf_gc] at marked
  unfold markAfterGc at marked
  cases found : chunkEntry tables.chunks id with
  | none => simp [found] at marked
  | some entry =>
      by_cases unreferenced : entry.refcount = 0
      · simp only [found, unreferenced, if_true] at marked
        have unexpired : ¬ Expired tables nowMs grace id := by
          rintro ⟨_, expiredMark, _, _, isMark, elapsed⟩
          simp [isMark, elapsed] at marked
        refine ⟨?_, ⟨entry, found, unreferenced⟩, ⟨entry, ?_, unreferenced⟩⟩
        · cases before : markOf tables.gcMarks id with
          | none =>
              simp only [before] at marked
              exact .inr ⟨rfl, (Option.some.inj marked).symm⟩
          | some earlier =>
              simp only [before] at marked
              split at marked
              next elapsed => cases marked
              next waiting => exact .inl marked
        · rw [Option.mem_def, chunkEntry_gc, if_neg unexpired, found]
      · simp [found, unreferenced] at marked

/-- A marked chunk left unreferenced by a transaction other than gc was so
before, unless the transaction restarts its timer. -/
theorem unreferenced_of_commit {transaction : Transaction} {tables : Tables} {id : ChunkId}
    (notGc : ∀ nowMs grace, transaction ≠ .gc nowMs grace)
    (continues : ¬ RestartsTimer tables transaction) (marked : id ∈ tables.gcMarks)
    (after : Unreferenced (transaction.commit tables) id) : Unreferenced tables id := by
  cases outcome : transaction.result tables with
  | error error => rwa [Transaction.commit_of_error outcome] at after
  | ok next =>
      rw [Transaction.commit_of_ok outcome] at after
      rcases unreferenced_iff.mp after with ⟨entry, found, zero⟩
      cases transaction with
      | putChunk chunk data =>
          cases outcome
          split at found
          next occupied => exact unreferenced_iff.mpr ⟨entry, found, zero⟩
          next fresh =>
            simp only [indexChunk, chunkEntry_insert] at found
            split at found
            next same => exact absurd ⟨fresh, same ▸ marked⟩ continues
            next different => exact unreferenced_iff.mpr ⟨entry, found, zero⟩
      | putSnapshotAs snapshot blob refs owner =>
          rcases putSnapshotAs_ok outcome with ⟨_, chunks, taken, rfl⟩
          simp only [(bumpRefs_ok taken).2, Option.map_eq_some_iff] at found
          rcases found with ⟨before, foundBefore, rfl⟩
          rw [toNat_refcount_bumpBy] at zero
          exact unreferenced_iff.mpr ⟨before, foundBefore, by omega⟩
      | deleteSnapshot snapshot =>
          rcases deleteSnapshot_ok outcome with ⟨live, rfl⟩
          simp only [chunkEntry_dropRefs, Option.map_eq_some_iff] at found
          rcases found with ⟨before, foundBefore, rfl⟩
          rw [toNat_refcount_dropBy] at zero
          refine unreferenced_iff.mpr ⟨before, foundBefore, ?_⟩
          by_contra positive
          exact continues ⟨live, id, ExtTreeMap.mem_keys.mpr marked, before, foundBefore,
            by omega, by omega⟩
      | deleteChunk chunk =>
          rcases deleteChunk_ok outcome with ⟨_, _, _, rfl⟩
          rw [chunkEntry_erase] at found
          split at found
          next same => cases found
          next different => exact unreferenced_iff.mpr ⟨entry, found, zero⟩
      | gc nowMs grace => exact absurd rfl (notGc nowMs grace)
      | recordPrune nowMs mode =>
          cases outcome
          exact unreferenced_iff.mpr ⟨entry, found, zero⟩

/-- Marks stay on indexed chunks as long as `delete_chunk` is not used. -/
theorem MarksIndexed.commit {tables : Tables} (indexed : MarksIndexed tables)
    {transaction : Transaction} (notDeleted : ∀ id, transaction ≠ .deleteChunk id) :
    MarksIndexed (transaction.commit tables) := by
  intro id marked
  by_cases isGc : ∃ nowMs grace, transaction = .gc nowMs grace
  · rcases isGc with ⟨nowMs, grace, rfl⟩
    rcases mem_marks_iff_markOf.mp marked with ⟨markedAt, isMark⟩
    rcases (markOf_gc_eq_some isMark).2.2 with ⟨entry, found, _⟩
    exact mem_chunks_iff_chunkEntry.mpr ⟨entry, found⟩
  · have notGc : ∀ nowMs grace, transaction ≠ .gc nowMs grace :=
      fun nowMs grace same => isGc ⟨nowMs, grace, same⟩
    rw [gcMarks_commit notGc] at marked
    exact mem_chunks_commit_of_mem notGc (notDeleted id) (indexed id marked)

end Busyncr.Store
