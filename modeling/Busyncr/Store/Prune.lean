import Busyncr.Core.Retention
import Busyncr.Store.Transaction

/-!
`ChunkStore::prune`: list the snapshots, plan on their ULID times, delete
what the plan drops, and log the run.

The listing is ascending, so a snapshot the plan drops always gives way to a
greater ULID of the same cell.
-/

namespace Busyncr.Store

open Std

/-- Snapshot creation time in milliseconds since the Unix epoch, read from
its ULID and clamped into `i64`. -/
def ulidTimeMs (id : Ulid) : Int64 := Int64.ofIntClamp id.timestampMs

/-- The retention plan of a listing. -/
def prunePlan (nowMs : Int64) (policy : Retention.RetentionPolicy) (snapshots : List Ulid) :
    Retention.Plan Ulid :=
  Retention.plan nowMs (snapshots.map fun id => (ulidTimeMs id, id)) policy

/-- What a finished prune reports. -/
structure PruneOutcome where
  kept : List Ulid
  dropped : List Ulid
  mode : PruneMode
deriving DecidableEq

/-- The transactions one prune commits after planning. -/
def pruneTransactions (nowMs : Int64) (mode : PruneMode) (drop : List Ulid) : List Transaction :=
  drop.map .deleteSnapshot ++ [.recordPrune nowMs mode]

/-- A prune that nothing else interleaves with. -/
def prune (tables : Tables) (nowMs : Int64) (policy : Retention.RetentionPolicy)
    (mode : PruneMode) : PruneOutcome × Tables :=
  let plan := prunePlan nowMs policy (listSnapshots tables)
  (⟨plan.keep, plan.drop, mode⟩,
    (pruneTransactions nowMs mode plan.drop).foldl (fun current transaction =>
      transaction.commit current) tables)

/-- What every deletion and the log record keep, a prune keeps. -/
theorem prune_invariant (Holds : Tables → Prop) {tables : Tables} {nowMs : Int64}
    {policy : Retention.RetentionPolicy} {mode : PruneMode}
    (deleted : ∀ current, ∀ snapshot ∈ (prunePlan nowMs policy (listSnapshots tables)).drop,
      Holds current → Holds ((Transaction.deleteSnapshot snapshot).commit current))
    (recorded : ∀ current, Holds current →
      Holds ((Transaction.recordPrune nowMs mode).commit current))
    (holds : Holds tables) : Holds (prune tables nowMs policy mode).2 := by
  have folded : ∀ (drop : List Ulid) (current : Tables),
      (∀ snapshot ∈ drop, snapshot ∈ (prunePlan nowMs policy (listSnapshots tables)).drop) →
      Holds current →
      Holds ((pruneTransactions nowMs mode drop).foldl (fun reached transaction =>
        transaction.commit reached) current) := by
    intro drop
    induction drop with
    | nil =>
        intro current _ held
        exact recorded current held
    | cons snapshot rest inductionHypothesis =>
        intro current planned held
        obtain ⟨first, others⟩ := List.forall_mem_cons.mp planned
        exact inductionHypothesis _ others (deleted current snapshot first held)
  exact folded _ tables (fun _ planned => planned) holds

theorem toInt_ulidTimeMs (id : Ulid) : (ulidTimeMs id).toInt = id.timestampMs := by
  have bound := id.timestampMs_lt
  rw [ulidTimeMs, Saturating.toInt_ofIntClamp]
  omega

/-- A smaller time belongs to a smaller ULID. -/
theorem lt_of_ulidTimeMs_lt {left right : Ulid}
    (earlier : (ulidTimeMs left).toInt < (ulidTimeMs right).toInt) : left < right := by
  rw [toInt_ulidTimeMs, toInt_ulidTimeMs] at earlier
  by_contra notLess
  have mono : right.timestampMs ≤ left.timestampMs := by
    refine Ulid.timestampMs_mono ?_
    rw [Ulid.le_iff]
    rw [Ulid.lt_iff] at notLess
    omega
  omega

theorem listSnapshots_ascending (tables : Tables) :
    (listSnapshots tables).Pairwise (· < ·) := by
  have ordered : tables.snapshots.keys.Pairwise fun left right => compare left right = .lt :=
    ExtTreeMap.ordered_keys
  exact ordered.imp fun less => Ulid.compare_eq_lt.mp less

theorem mem_listSnapshots_iff {tables : Tables} {snapshot : Ulid} :
    snapshot ∈ listSnapshots tables ↔ snapshot ∈ tables.snapshots :=
  ExtTreeMap.mem_keys

/-- What the plan drops from an ascending listing gives way to a greater ULID
listed in the same cell. -/
theorem exists_greater_of_mem_drop {nowMs : Int64} {policy : Retention.RetentionPolicy}
    {snapshots : List Ulid} (ascending : snapshots.Pairwise (· < ·)) {snapshot : Ulid}
    (dropped : snapshot ∈ (prunePlan nowMs policy snapshots).drop) :
    ∃ greater ∈ snapshots, snapshot < greater ∧
      ∃ key, Retention.cellKey policy nowMs (ulidTimeMs snapshot) = some key ∧
        Retention.cellKey policy nowMs (ulidTimeMs greater) = some key := by
  rcases Retention.exists_survivor_of_mem_drop dropped with
    ⟨position, timeMs, key, holder, holderTime, read, inCell, survives, newer⟩
  rcases survives.entry with ⟨greater, holderRead⟩
  simp only [List.getElem?_map, Option.map_eq_some_iff, Prod.mk.injEq] at read holderRead
  rcases read with ⟨_, listed, rfl, rfl⟩
  rcases holderRead with ⟨_, holderListed, rfl, rfl⟩
  rcases List.getElem?_eq_some_iff.mp listed with ⟨inRange, isSnapshot⟩
  rcases List.getElem?_eq_some_iff.mp holderListed with ⟨holderInRange, isGreater⟩
  refine ⟨_, List.mem_of_getElem? holderListed, ?_, key, inCell, survives.inCell⟩
  rcases newer with less | ⟨_, later⟩
  · exact lt_of_ulidTimeMs_lt less
  · have ordered := List.pairwise_iff_getElem.mp ascending position holder inRange
      holderInRange later
    rwa [isSnapshot, isGreater] at ordered

theorem mem_of_mem_drop {nowMs : Int64} {policy : Retention.RetentionPolicy}
    {snapshots : List Ulid} {snapshot : Ulid}
    (dropped : snapshot ∈ (prunePlan nowMs policy snapshots).drop) : snapshot ∈ snapshots := by
  rcases Retention.exists_survivor_of_mem_drop dropped with
    ⟨position, timeMs, _, _, _, read, _, _, _⟩
  simp only [List.getElem?_map, Option.map_eq_some_iff, Prod.mk.injEq] at read
  rcases read with ⟨_, listed, _, rfl⟩
  exact List.mem_of_getElem? listed

end Busyncr.Store
