import Busyncr.Core.RetentionPlan
import Busyncr.Store.Atomicity

/-!
What a prune that runs alone leaves behind: the listing is what the plan kept,
the references of the dropped snapshots are gone from the counts, and pruning
again at the same instant finds nothing to drop.
-/

namespace Busyncr.Store

open Std

/-- Delete snapshots one after another. -/
def deleteAll (tables : Tables) (drop : List Ulid) : Tables :=
  drop.foldl (fun current snapshot => (Transaction.deleteSnapshot snapshot).commit current) tables

theorem prune_snd (tables : Tables) (nowMs : Int64) (policy : Retention.RetentionPolicy)
    (mode : PruneMode) :
    (prune tables nowMs policy mode).2 =
      recordPrune (deleteAll tables (prunePlan nowMs policy (listSnapshots tables)).drop) nowMs
        mode := by
  simp only [prune, pruneTransactions, List.foldl_append, List.foldl_map]
  rfl

section Deleting

theorem dropBy_add (first second : Nat) (entry : IndexEntry) :
    dropBy second (dropBy first entry) = dropBy (first + second) entry := by
  refine entry_ext rfl ?_
  simp only [toNat_refcount_dropBy]
  omega

/-- What the deletions of distinct live snapshots do to the tables. -/
structure Deleted (tables : Tables) (drop : List Ulid) (next : Tables) : Prop where
  snapshots : next.snapshots = OrderedTable.eraseAll drop tables.snapshots
  snapshotRefs : next.snapshotRefs = OrderedTable.eraseAll drop tables.snapshotRefs
  snapshotOwner : next.snapshotOwner = OrderedTable.eraseAll drop tables.snapshotOwner
  chunks : ∀ id, chunkEntry next.chunks id =
    (chunkEntry tables.chunks id).map (dropBy ((drop.flatMap tables.refsOf).count id))

theorem deleted_commit {tables : Tables} {snapshot : Ulid} (live : snapshot ∈ tables.snapshots) :
    Deleted tables [snapshot] ((Transaction.deleteSnapshot snapshot).commit tables) := by
  have committed : (Transaction.deleteSnapshot snapshot).commit tables = { tables with
      snapshots := tables.snapshots.erase snapshot
      snapshotOwner := tables.snapshotOwner.erase snapshot
      snapshotRefs := tables.snapshotRefs.erase snapshot
      chunks := dropRefs (tables.refsOf snapshot) tables.chunks } :=
    Transaction.commit_of_ok (if_pos live)
  rw [committed]
  refine ⟨rfl, rfl, rfl, fun id => ?_⟩
  simp [chunkEntry_dropRefs]

theorem Deleted.refsOf {tables next : Tables} {drop : List Ulid} {snapshot : Ulid}
    (deleted : Deleted tables drop next) (kept : snapshot ∉ drop) :
    next.refsOf snapshot = tables.refsOf snapshot := by
  simp [Tables.refsOf, deleted.snapshotRefs, OrderedTable.getElem?_eraseAll, kept]

theorem Deleted.mem_snapshots_iff {tables next : Tables} {drop : List Ulid}
    (deleted : Deleted tables drop next) {snapshot : Ulid} :
    snapshot ∈ next.snapshots ↔ snapshot ∈ tables.snapshots ∧ snapshot ∉ drop := by
  rw [deleted.snapshots, ExtTreeMap.mem_iff_isSome_getElem?, ExtTreeMap.mem_iff_isSome_getElem?,
    OrderedTable.getElem?_eraseAll]
  by_cases dropped : snapshot ∈ drop <;> simp [dropped]

theorem Deleted.trans {tables middle next : Tables} {first second : List Ulid}
    (before : Deleted tables first middle) (after : Deleted middle second next)
    (disjoint : ∀ snapshot ∈ second, snapshot ∉ first) :
    Deleted tables (first ++ second) next where
  snapshots := by
    rw [after.snapshots, before.snapshots, OrderedTable.eraseAll_append]
  snapshotRefs := by
    rw [after.snapshotRefs, before.snapshotRefs, OrderedTable.eraseAll_append]
  snapshotOwner := by
    rw [after.snapshotOwner, before.snapshotOwner, OrderedTable.eraseAll_append]
  chunks := by
    intro id
    have sameRefs : second.flatMap middle.refsOf = second.flatMap tables.refsOf := by
      apply List.flatMap_congr
      intro snapshot listed
      exact before.refsOf (disjoint snapshot listed)
    rw [after.chunks, before.chunks, sameRefs, Option.map_map, List.flatMap_append,
      List.count_append]
    congr 1
    funext entry
    exact dropBy_add _ _ entry

theorem deleted_deleteAll {tables : Tables} {drop : List Ulid} (distinct : drop.Nodup)
    (live : ∀ snapshot ∈ drop, snapshot ∈ tables.snapshots) :
    Deleted tables drop (deleteAll tables drop) := by
  induction drop generalizing tables with
  | nil =>
      refine ⟨rfl, rfl, rfl, fun id => ?_⟩
      cases found : chunkEntry tables.chunks id <;> simp [deleteAll, found]
  | cons snapshot rest inductionHypothesis =>
      obtain ⟨fresh, distinctRest⟩ := List.nodup_cons.mp distinct
      obtain ⟨snapshotLive, restLive⟩ := List.forall_mem_cons.mp live
      have others : ∀ other ∈ rest, other ∉ [snapshot] := by
        intro other listed same
        obtain rfl := List.mem_singleton.mp same
        exact fresh listed
      have first := deleted_commit snapshotLive
      apply first.trans (inductionHypothesis distinctRest ?_) others
      intro other listed
      exact first.mem_snapshots_iff.mpr ⟨restLive other listed, others other listed⟩

end Deleting

section Alone

variable {nowMs : Int64} {policy : Retention.RetentionPolicy}

theorem prunePlan_perm (nowMs : Int64) (policy : Retention.RetentionPolicy)
    (snapshots : List Ulid) :
    ((prunePlan nowMs policy snapshots).keep ++ (prunePlan nowMs policy snapshots).drop).Perm
      snapshots := by
  have perm := Retention.keep_append_drop_perm nowMs
    (snapshots.map fun id => (ulidTimeMs id, id)) policy
  simpa [prunePlan, Function.comp_def] using perm

/-- What a prune alone does to the tables; only the log record is added. -/
theorem deleted_prune (tables : Tables) (nowMs : Int64) (policy : Retention.RetentionPolicy)
    (mode : PruneMode) :
    Deleted tables (prune tables nowMs policy mode).1.dropped
      (prune tables nowMs policy mode).2 := by
  have distinct : (listSnapshots tables).Nodup := ExtTreeMap.nodup_keys
  have perm := prunePlan_perm nowMs policy (listSnapshots tables)
  have droppedDistinct : (prunePlan nowMs policy (listSnapshots tables)).drop.Nodup :=
    (List.nodup_append.mp (perm.nodup_iff.mpr distinct)).2.1
  have live : ∀ snapshot ∈ (prunePlan nowMs policy (listSnapshots tables)).drop,
      snapshot ∈ tables.snapshots := by
    intro snapshot listed
    exact mem_listSnapshots_iff.mp (mem_of_mem_drop listed)
  obtain ⟨snapshots, snapshotRefs, snapshotOwner, chunks⟩ :=
    deleted_deleteAll droppedDistinct live
  rw [prune_snd]
  exact ⟨snapshots, snapshotRefs, snapshotOwner, chunks⟩

/-- The entries the plan keeps are those of the snapshots it keeps. -/
theorem keptEntries_eq (nowMs : Int64) (policy : Retention.RetentionPolicy)
    (snapshots : List Ulid) :
    Retention.keptEntries policy nowMs (snapshots.map fun id => (ulidTimeMs id, id)) =
      (prunePlan nowMs policy snapshots).keep.map fun id => (ulidTimeMs id, id) := by
  have timed : ∀ entry ∈ Retention.keptEntries policy nowMs
      (snapshots.map fun id => (ulidTimeMs id, id)), (ulidTimeMs entry.2, entry.2) = entry := by
    intro entry listed
    obtain ⟨id, -, rfl⟩ :=
      List.mem_map.mp ((Retention.keptEntries_sublist policy nowMs _).mem listed)
    rfl
  rw [prunePlan, Retention.keep_plan, List.map_map]
  calc Retention.keptEntries policy nowMs (snapshots.map fun id => (ulidTimeMs id, id))
      = (Retention.keptEntries policy nowMs (snapshots.map fun id => (ulidTimeMs id, id))).map
          id := (List.map_id _).symm
    _ = _ := (List.map_congr_left timed).symm

theorem keep_sublist (nowMs : Int64) (policy : Retention.RetentionPolicy)
    (snapshots : List Ulid) : (prunePlan nowMs policy snapshots).keep.Sublist snapshots := by
  have kept := (Retention.keptEntries_sublist policy nowMs
    (snapshots.map fun id => (ulidTimeMs id, id))).map Prod.snd
  simpa [prunePlan, Retention.keep_plan, Function.comp_def] using kept

/-- Planning again on what was kept drops nothing. -/
theorem prunePlan_keep (nowMs : Int64) (policy : Retention.RetentionPolicy)
    (snapshots : List Ulid) :
    prunePlan nowMs policy (prunePlan nowMs policy snapshots).keep =
      ⟨(prunePlan nowMs policy snapshots).keep, []⟩ := by
  have stable := Retention.plan_keptEntries nowMs
    (snapshots.map fun id => (ulidTimeMs id, id)) policy
  rw [keptEntries_eq] at stable
  exact stable

theorem listSnapshots_prune (tables : Tables) (nowMs : Int64)
    (policy : Retention.RetentionPolicy) (mode : PruneMode) :
    listSnapshots (prune tables nowMs policy mode).2 =
      (prune tables nowMs policy mode).1.kept := by
  have perm := prunePlan_perm nowMs policy (listSnapshots tables)
  have distinct : ((prunePlan nowMs policy (listSnapshots tables)).keep ++
      (prunePlan nowMs policy (listSnapshots tables)).drop).Nodup :=
    perm.nodup_iff.mpr ExtTreeMap.nodup_keys
  obtain ⟨keptDistinct, -, disjoint⟩ := List.nodup_append.mp distinct
  have keptAscending : (prunePlan nowMs policy (listSnapshots tables)).keep.Pairwise (· < ·) :=
    (listSnapshots_ascending tables).sublist (keep_sublist nowMs policy (listSnapshots tables))
  have sameMembers : (listSnapshots (prune tables nowMs policy mode).2).Perm
      (prunePlan nowMs policy (listSnapshots tables)).keep := by
    refine (List.perm_ext_iff_of_nodup ExtTreeMap.nodup_keys keptDistinct).mpr fun snapshot => ?_
    rw [ExtTreeMap.mem_keys, (deleted_prune tables nowMs policy mode).mem_snapshots_iff,
      ← mem_listSnapshots_iff, ← perm.mem_iff, List.mem_append]
    constructor
    · rintro ⟨kept | dropped, notDropped⟩
      · exact kept
      · exact absurd dropped notDropped
    · intro kept
      exact ⟨.inl kept, fun dropped => disjoint _ kept _ dropped rfl⟩
  refine sameMembers.eq_of_pairwise ?_ (listSnapshots_ascending _) keptAscending
  intro left right _ _ less greater
  rw [Ulid.lt_iff] at less greater
  omega

/-- Pruning a store whose listing is already what the plan keeps. -/
theorem prune_of_stable {next : Tables}
    (stable : prunePlan nowMs policy (listSnapshots next) = ⟨listSnapshots next, []⟩)
    (mode : PruneMode) :
    (prune next nowMs policy mode).1 = ⟨listSnapshots next, [], mode⟩ ∧
      listSnapshots (prune next nowMs policy mode).2 = listSnapshots next := by
  have outcome : (prune next nowMs policy mode).1 = ⟨listSnapshots next, [], mode⟩ := by
    simp [prune, stable]
  refine ⟨outcome, ?_⟩
  rw [listSnapshots_prune, outcome]

/-- The tables after prunes at one instant, by whatever control path. -/
def pruneAgain (nowMs : Int64) (policy : Retention.RetentionPolicy) (tables : Tables)
    (modes : List PruneMode) : Tables :=
  modes.foldl (fun current mode => (prune current nowMs policy mode).2) tables

theorem stable_pruneAgain {next : Tables}
    (stable : prunePlan nowMs policy (listSnapshots next) = ⟨listSnapshots next, []⟩)
    (modes : List PruneMode) :
    listSnapshots (pruneAgain nowMs policy next modes) = listSnapshots next := by
  induction modes generalizing next with
  | nil => rfl
  | cons mode rest inductionHypothesis =>
      obtain ⟨-, listed⟩ := prune_of_stable stable mode
      have again : listSnapshots (pruneAgain nowMs policy (prune next nowMs policy mode).2 rest) =
          listSnapshots (prune next nowMs policy mode).2 :=
        inductionHypothesis (by rw [listed]; exact stable)
      exact again.trans listed

/-- The counts hold the references of the dropped snapshots. -/
theorem count_dropped_le (nowMs : Int64) (policy : Retention.RetentionPolicy) {tables : Tables}
    (exact : RefcountExact tables) {id : ChunkId}
    {entry : IndexEntry} (found : chunkEntry tables.chunks id = some entry) :
    ((prunePlan nowMs policy (listSnapshots tables)).drop.flatMap tables.refsOf).count id ≤
      entry.refcount.toNat := by
  have perm := (prunePlan_perm nowMs policy (listSnapshots tables)).flatMap_right tables.refsOf
  have counted : (liveRefs tables).count id =
      (((prunePlan nowMs policy (listSnapshots tables)).keep ++
        (prunePlan nowMs policy (listSnapshots tables)).drop).flatMap tables.refsOf).count id :=
    (perm.count_eq id).symm
  rw [exact.counted id entry found, counted, List.flatMap_append, List.count_append]
  omega

end Alone

/-- A prune that runs alone lists what the plan kept, takes exactly the
references of the dropped snapshots off the counts, leaves everything of the
kept snapshots, and finds nothing more to drop; as does the plan itself on
what it kept. -/
theorem prune_realises_plan {redb : Crash.Redb} {tables : Tables}
    (reachable : Reachable redb tables) (nowMs : Int64) (policy : Retention.RetentionPolicy)
    (mode : PruneMode) :
    (prune tables nowMs policy mode).1 =
        ⟨(prunePlan nowMs policy (listSnapshots tables)).keep,
          (prunePlan nowMs policy (listSnapshots tables)).drop, mode⟩ ∧
      listSnapshots (prune tables nowMs policy mode).2 =
        (prune tables nowMs policy mode).1.kept ∧
      (prune tables nowMs policy mode).1.kept.Pairwise (· < ·) ∧
      ((prune tables nowMs policy mode).1.kept ++
        (prune tables nowMs policy mode).1.dropped).Perm (listSnapshots tables) ∧
      (∀ snapshot ∈ (prune tables nowMs policy mode).1.kept,
        (prune tables nowMs policy mode).2.snapshots[snapshot]? = tables.snapshots[snapshot]? ∧
          (prune tables nowMs policy mode).2.snapshotRefs[snapshot]? =
            tables.snapshotRefs[snapshot]? ∧
          (prune tables nowMs policy mode).2.snapshotOwner[snapshot]? =
            tables.snapshotOwner[snapshot]?) ∧
      (∀ id, chunkEntry (prune tables nowMs policy mode).2.chunks id = none ↔
        chunkEntry tables.chunks id = none) ∧
      (∀ id entry, chunkEntry tables.chunks id = some entry →
        ∃ left, chunkEntry (prune tables nowMs policy mode).2.chunks id = some left ∧
          left.chunkLen = entry.chunkLen ∧
          left.refcount.toNat + ((prune tables nowMs policy mode).1.dropped.flatMap
            tables.refsOf).count id = entry.refcount.toNat) ∧
      (∀ modes again, (prune (pruneAgain nowMs policy (prune tables nowMs policy mode).2 modes)
        nowMs policy again).1.dropped = []) ∧
      ∀ (Id : Type) (instant : Int64) (entries : List (Int64 × Id)),
        (Retention.keptEntries policy instant entries).Sublist entries ∧
          (Retention.keptEntries policy instant entries).map Prod.snd =
            (Retention.plan instant entries policy).keep ∧
          Retention.plan instant (Retention.keptEntries policy instant entries) policy =
            ⟨(Retention.plan instant entries policy).keep, []⟩ := by
  have listed := listSnapshots_prune tables nowMs policy mode
  have deleted := deleted_prune tables nowMs policy mode
  refine ⟨rfl, listed, ?_, prunePlan_perm nowMs policy _, ?_, ?_, ?_, ?_, ?_⟩
  · rw [← listed]
    exact listSnapshots_ascending _
  · intro snapshot kept
    rw [← listed, mem_listSnapshots_iff, deleted.mem_snapshots_iff] at kept
    simp only [deleted.snapshots, deleted.snapshotRefs, deleted.snapshotOwner,
      OrderedTable.getElem?_eraseAll, kept.2, if_false, and_self]
  · intro id
    rw [deleted.chunks, Option.map_eq_none_iff]
  · intro id entry found
    have held := count_dropped_le nowMs policy reachable.exact found
    have left := deleted.chunks id
    rw [found, Option.map_some] at left
    refine ⟨_, left, rfl, ?_⟩
    rw [toNat_refcount_dropBy]
    exact Nat.sub_add_cancel held
  · intro modes again
    have stable : prunePlan nowMs policy (listSnapshots (prune tables nowMs policy mode).2) =
        ⟨listSnapshots (prune tables nowMs policy mode).2, []⟩ := by
      rw [listed]
      exact prunePlan_keep nowMs policy (listSnapshots tables)
    have sameListing := stable_pruneAgain stable modes
    rw [← sameListing] at stable
    rw [(prune_of_stable stable again).1]
  · intro Id instant entries
    exact ⟨Retention.keptEntries_sublist policy instant entries,
      (Retention.keep_plan instant entries policy).symm,
      Retention.plan_keptEntries instant entries policy⟩

/-- Two snapshots of one cell refer to one chunk, the older twice. -/
def crowdedCell (chunk : ChunkId) : Tables :=
  [Transaction.putSnapshotAs (.fromParts 1 0) [1] [chunk, chunk] none,
    .putSnapshotAs (.fromParts 2 0) [2] [chunk] none].foldl
      (fun tables transaction => transaction.commit tables) (oneChunk chunk)

theorem reachable_crowdedCell : Reachable .full (crowdedCell ⟨.replicate 32 7⟩) :=
  .commit _ (.commit _ reachable_oneChunk (by decide +kernel)) (by decide +kernel)

theorem prune_of_crowdedCell :
    (prune (crowdedCell ⟨.replicate 32 7⟩) 10 .defaultGrid .auto).1.dropped = [.fromParts 1 0] ∧
      listSnapshots (prune (crowdedCell ⟨.replicate 32 7⟩) 10 .defaultGrid .auto).2 =
        (prune (crowdedCell ⟨.replicate 32 7⟩) 10 .defaultGrid .auto).1.kept :=
  ⟨by decide +kernel, (prune_realises_plan reachable_crowdedCell 10 .defaultGrid .auto).2.1⟩

end Busyncr.Store
