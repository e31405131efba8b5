import Busyncr.Store.Observations

/-!
Sequences of operations, without looking at the storage below.

The store represents its contents as long as fewer than 2⁶⁴ references are
put in total, since a count then stays below its width.
-/

namespace Busyncr.Store

open Std

/-- One operation after another. -/
def runAll (blake3 : Blake3) (disk : Disk) (operations : List Operation) : Disk :=
  operations.foldl (fun current operation => (operation.run blake3 current).2) disk

/-- How many references an operation puts. -/
def Operation.references : Operation → Nat
  | .putSnapshotAs _ _ refs _ => refs.length
  | _ => 0

/-- The operation puts the snapshot. -/
def Operation.Ships (operation : Operation) (snapshot : Ulid) : Prop :=
  ∃ blob refs owner, operation = .putSnapshotAs snapshot blob refs owner

def totalReferences (operations : List Operation) : Nat :=
  (operations.map Operation.references).sum

namespace Contents

def performAll (contents : Contents) (operations : List Operation) : Contents :=
  operations.foldl (fun current operation => (current.perform operation).2) contents

theorem length_references (contents : Contents) :
    contents.references.length =
      OrderedTable.total (fun shipped => shipped.refs.length) contents.live := by
  rw [references, List.length_flatMap, OrderedTable.total]
  congr 2
  funext snapshot
  rw [refsOf]
  cases contents.live[snapshot]? <;> rfl

theorem length_references_perform (contents : Contents) (operation : Operation) :
    (contents.perform operation).2.references.length ≤
      contents.references.length + operation.references := by
  rw [length_references, length_references]
  cases operation with
  | putChunk id data =>
      simp only [perform]
      split <;> exact Nat.le_add_right _ _
  | putSnapshotAs snapshot blob refs owner =>
      simp only [perform]
      split
      next => exact Nat.le_add_right _ _
      next =>
        split
        next => exact Nat.le_add_right _ _
        next =>
          have added := OrderedTable.total_insert (fun shipped : Shipped => shipped.refs.length)
            contents.live snapshot ⟨blob, owner, refs⟩
          simp only [Operation.references] at added ⊢
          omega
  | deleteSnapshot snapshot =>
      simp only [perform]
      split
      next =>
        apply Nat.le_trans ?_ (Nat.le_add_right _ _)
        exact OrderedTable.total_eraseAll_le _ [snapshot] contents.live
      next => exact Nat.le_add_right _ _
  | deleteChunk id =>
      simp only [perform]
      split
      next => exact Nat.le_add_right _ _
      next => split <;> exact Nat.le_add_right _ _
  | prune nowMs policy mode =>
      apply Nat.le_trans ?_ (Nat.le_add_right _ _)
      exact OrderedTable.total_eraseAll_le _ _ contents.live
  | gc nowMs grace => exact Nat.le_add_right _ _

theorem length_references_performAll (contents : Contents) (operations : List Operation) :
    (contents.performAll operations).references.length ≤
      contents.references.length + totalReferences operations := by
  induction operations generalizing contents with
  | nil => exact Nat.le_refl _
  | cons operation rest inductionHypothesis =>
      have first := length_references_perform contents operation
      have onward := inductionHypothesis (contents.perform operation).2
      simp only [performAll, totalReferences, List.foldl_cons, List.map_cons,
        List.sum_cons] at onward ⊢
      omega

/-- A blob the store holds after an operation was held before it, or is the
one it uploads. -/
theorem blobs_perform_cases {contents : Contents} {operation : Operation} {id : ChunkId}
    {data : Bytes} (held : (contents.perform operation).2.blobs[id]? = some data) :
    contents.blobs[id]? = some data ∨ operation = .putChunk id data := by
  cases operation with
  | putChunk put blob =>
      simp only [perform] at held
      split at held
      next => exact .inl held
      next =>
        rw [OrderedTable.getElem?_insert_eq] at held
        split at held
        next same =>
          cases held
          exact .inr (by rw [same])
        next => exact .inl held
  | putSnapshotAs snapshot blob refs owner =>
      rw [blobs_putSnapshotAs] at held
      exact .inl held
  | deleteSnapshot snapshot =>
      rw [blobs_deleteSnapshot] at held
      exact .inl held
  | deleteChunk deleted =>
      simp only [perform] at held
      split at held
      next => exact .inl held
      next =>
        split at held
        next => exact .inl held
        next =>
          rw [OrderedTable.getElem?_erase_eq] at held
          split at held
          next => cases held
          next => exact .inl held
  | prune nowMs policy mode => exact .inl held
  | gc nowMs grace =>
      simp only [perform, swept, OrderedTable.getElem?_eraseAll] at held
      split at held
      next => cases held
      next => exact .inl held

/-- Operations that do not put a snapshot leave it as it was, or not at
all. -/
theorem live_performAll {contents : Contents} {operations : List Operation} {snapshot : Ulid}
    {shipped : Shipped} (unshipped : ∀ operation ∈ operations, ¬ operation.Ships snapshot)
    (found : (contents.performAll operations).live[snapshot]? = some shipped) :
    contents.live[snapshot]? = some shipped := by
  induction operations generalizing contents with
  | nil => exact found
  | cons operation rest inductionHypothesis =>
      obtain ⟨head, tail⟩ := List.forall_mem_cons.mp unshipped
      rcases live_perform (inductionHypothesis tail found) with before | ⟨-, -, rfl⟩
      · exact before
      · exact absurd ⟨_, _, _, rfl⟩ head

theorem performAll_append (contents : Contents) (first second : List Operation) :
    contents.performAll (first ++ second) = (contents.performAll first).performAll second :=
  List.foldl_append

/-- A snapshot that was accepted is live with what was shipped. -/
theorem live_of_accepted {contents : Contents} {snapshot : Ulid} {blob : Bytes}
    {refs : List ChunkId} {owner : Option String}
    (accepted : (contents.perform (.putSnapshotAs snapshot blob refs owner)).1 =
      .finished (.ok ())) :
    (contents.perform (.putSnapshotAs snapshot blob refs owner)).2.live[snapshot]? =
      some ⟨blob, owner, refs⟩ := by
  simp only [perform] at accepted ⊢
  split at accepted
  next => cases accepted
  next fresh =>
    rw [if_neg fresh]
    split at accepted
    next => cases accepted
    next => simp

theorem Closed.performAll {contents : Contents} (closed : contents.Closed)
    (operations : List Operation) : (contents.performAll operations).Closed := by
  induction operations generalizing contents with
  | nil => exact closed
  | cons operation rest inductionHypothesis => exact inductionHypothesis (closed.perform operation)

end Contents

variable {blake3 : Blake3} {disk : Disk} {contents : Contents}

theorem Represents.length_liveRefs (represents : Represents blake3 disk contents) :
    (liveRefs disk.tables).length = contents.references.length := by
  rw [represents.liveRefs_eq]

/-- An operation that puts few references is the one of the contents. -/
theorem Represents.perform (represents : Represents blake3 disk contents) (operation : Operation)
    (few : contents.references.length + operation.references < 2 ^ 64) :
    (operation.run blake3 disk).1 = (contents.perform operation).1 ∧
      Represents blake3 (operation.run blake3 disk).2 (contents.perform operation).2 := by
  cases operation with
  | putChunk id data => exact represents.putChunk id data
  | putSnapshotAs snapshot blob refs owner =>
      apply represents.putSnapshotAs
      have before := represents.length_liveRefs
      simp only [Operation.references] at few
      simp only [Operation.run]
      cases stored : Store.putSnapshotAs disk.tables snapshot blob refs owner with
      | error error =>
          simp only [finish]
          omega
      | ok next =>
          obtain ⟨fresh, _, _, same⟩ := putSnapshotAs_ok stored
          have moved : (liveRefs next).Perm (refs ++ liveRefs disk.tables) :=
            liveRefs_insert_perm fresh (by rw [same]) (by rw [same])
          have added := moved.length_eq
          rw [List.length_append] at added
          simp only [finish]
          omega
  | deleteSnapshot snapshot => exact represents.deleteSnapshot snapshot
  | deleteChunk id => exact represents.deleteChunk id
  | prune nowMs policy mode => exact represents.prune nowMs policy mode
  | gc nowMs grace => exact represents.gc nowMs grace

theorem Represents.performAll (represents : Represents blake3 disk contents)
    (operations : List Operation)
    (few : contents.references.length + totalReferences operations < 2 ^ 64) :
    Represents blake3 (runAll blake3 disk operations) (contents.performAll operations) := by
  induction operations generalizing disk contents with
  | nil => exact represents
  | cons operation rest inductionHypothesis =>
      simp only [totalReferences, List.map_cons, List.sum_cons] at few
      have bound := contents.length_references_perform operation
      obtain ⟨-, onward⟩ := represents.perform operation (by omega)
      apply inductionHypothesis onward
      simp only [totalReferences]
      omega

@[simp]
theorem Contents.references_empty : Contents.empty.references = [] := by
  apply List.eq_nil_iff_forall_not_mem.mpr
  simp [references, empty]

theorem Contents.closed_empty : Contents.empty.Closed := by
  simp [Contents.Closed]

theorem runAll_append (first second : List Operation) :
    runAll blake3 disk (first ++ second) = runAll blake3 (runAll blake3 disk first) second :=
  List.foldl_append

/-- A snapshot that was accepted, is not put again and is listed at the end is
live with what was shipped. -/
theorem Represents.live_of_listed {final : Disk} {after : List Operation} {snapshot : Ulid}
    {blob : Bytes} {refs : List ChunkId} {owner : Option String}
    (represents : Represents blake3 disk contents)
    (few : contents.references.length + refs.length < 2 ^ 64)
    (accepted : ((Operation.putSnapshotAs snapshot blob refs owner).run blake3 disk).1 =
      .finished (.ok ()))
    (unshipped : ∀ operation ∈ after, ¬ operation.Ships snapshot)
    (atEnd : Represents blake3 final
      (contents.performAll (.putSnapshotAs snapshot blob refs owner :: after)))
    (listed : snapshot ∈ listSnapshots final.tables) :
    (contents.performAll (.putSnapshotAs snapshot blob refs owner :: after)).live[snapshot]? =
      some ⟨blob, owner, refs⟩ := by
  obtain ⟨answered, -⟩ := represents.perform (.putSnapshotAs snapshot blob refs owner) few
  have live := Contents.live_of_accepted (answered.symm.trans accepted)
  have still := atEnd.mem_live_iff.mpr (mem_listSnapshots_iff.mp listed)
  obtain ⟨shipped, found⟩ := Option.isSome_iff_exists.mp
    (ExtTreeMap.mem_iff_isSome_getElem?.mp still)
  rw [found, ← live]
  exact (Contents.live_performAll unshipped found).symm

end Busyncr.Store
