import Busyncr.Core.Bench
import Busyncr.Core.RetentionPlan
import Mathlib.Algebra.BigOperators.Group.Finset.Basic
import Mathlib.Algebra.Order.BigOperators.Group.Finset
import Mathlib.Data.Int.Interval
import Mathlib.Tactic.IntervalCases

/-!
How many snapshots the default grid keeps.

The planner cuts time into cells from the epoch on; the projection counts
cells back from now.  A span of ages meets at most one epoch cell more than
fit into it, so the two counts differ by at most one for each tier.
-/

namespace Busyncr.Retention

def hourMs : Nat := 60 * 60 * 1000

def hours (count : UInt64) : Duration := .fromSecs (count * (60 * 60))

/-- The tiers a list of (first hour, cell width) describes; a tier ends where
the next one starts. -/
def gridOf : List (UInt64 × UInt64) → List Tier
  | [] => []
  | (_, width) :: rest =>
      ⟨(rest.head?.map fun next => hours next.1).getD .max, hours width⟩ :: gridOf rest

/-- Tiers that start below a horizon of so many days. -/
def startedTiers (horizonDays : UInt64) : Nat :=
  retentionTiers.countP fun tier => tier.1.toNat < horizonDays.toNat * 24

/-- The cells of one tier, in hours and without an upper limit on integers. -/
def cellsOf (horizon : Nat) (index : Nat) : Nat :=
  match retentionTiers[index]? with
  | none => 0
  | some (start, width) =>
      let stop := (retentionTiers[index + 1]?.map fun next => next.1.toNat).getD horizon
      (min stop horizon - start.toNat + (width.toNat - 1)) / width.toNat

section Steady

theorem addCells_cons {horizonHours start width cells stop : UInt64}
    {rest : List (UInt64 × UInt64)}
    (next : (rest.head?.map Prod.fst).getD (UInt64.ofNat (2 ^ 64 - 1)) = stop)
    (wide : 1 < width.toNat) :
    addCells horizonHours cells ((start, width) :: rest) =
      addCells horizonHours (cells + UInt64.ofNat
        ((min stop.toNat horizonHours.toNat - start.toNat + (width.toNat - 1)) / width.toNat))
        rest := by
  have upper := Saturating.toNat_min stop horizonHours
  simp only [addCells, next]
  congr 1
  split
  next longer =>
    have bound := UInt64.lt_iff_toNat_lt.mp longer
    have cellCount : (Saturating.divCeil (min stop horizonHours - start) width).toNat =
        (min stop.toNat horizonHours.toNat - start.toNat + (width.toNat - 1)) / width.toNat := by
      rw [Saturating.toNat_divCeil wide,
        UInt64.toNat_sub_of_le _ _ (UInt64.le_of_lt longer), upper]
    rw [← cellCount, UInt64.ofNat_toNat]
  next shorter =>
    have bound := UInt64.le_iff_toNat_le.mp (UInt64.not_lt.mp shorter)
    have none : min stop.toNat horizonHours.toNat - start.toNat = 0 := by omega
    rw [none, Nat.zero_add, Nat.div_eq_of_lt (by omega)]
    simp

/-- The projection is the number of cells of all tiers. -/
theorem toNat_steadyStateSnapshots (horizonDays : UInt64) :
    (steadyStateSnapshots horizonDays).toNat =
      ∑ index ∈ Finset.range 4, cellsOf (Saturating.mul horizonDays 24).toNat index := by
  have limit := (Saturating.mul horizonDays 24).toNat_lt
  unfold steadyStateSnapshots retentionTiers
  rw [addCells_cons rfl (by decide), addCells_cons rfl (by decide), addCells_cons rfl (by decide),
    addCells_cons rfl (by decide)]
  simp only [addCells, Finset.sum_range_succ, Finset.sum_range_zero, cellsOf, retentionTiers]
  generalize (Saturating.mul horizonDays 24).toNat = horizon at limit ⊢
  simp
  omega

end Steady

section Counting

/-- A half-open span of times meets at most one cell more than fit into it. -/
theorem card_cells_le {cells : Finset Int} (width low : Int) (length : Nat) {count : Nat}
    (wide : 0 < width) (fills : (length : Int) ≤ width * count)
    (met : ∀ cell ∈ cells, ∃ time, low < time ∧ time ≤ low + length ∧ cell = time / width) :
    cells.card ≤ count + 1 := by
  have within : cells ⊆ Finset.Icc ((low + 1) / width) ((low + length) / width) := by
    intro cell listed
    obtain ⟨time, after, before, rfl⟩ := met cell listed
    rw [Finset.mem_Icc]
    exact ⟨Int.ediv_le_ediv wide (by omega), Int.ediv_le_ediv wide before⟩
  have last : (low + length) / width ≤ (low + 1) / width + count := by
    rw [← Int.add_mul_ediv_left _ _ (Int.ne_of_gt wide)]
    exact Int.ediv_le_ediv wide (by omega)
  have few := Finset.card_le_card within
  rw [Int.card_Icc] at few
  omega

theorem asNanos_hours {count : UInt64} (few : count.toNat ≤ 2 ^ 32) :
    (hours count).asNanos = count.toNat * hourMs * 10 ^ 6 := by
  simp only [hours, Duration.fromSecs, Duration.asNanos, UInt64.toNat_mul, hourMs,
    show (60 * 60 : UInt64).toNat = 3600 from rfl]
  omega

theorem asMillis_hours {count : UInt64} (few : count.toNat ≤ 2 ^ 32) :
    (hours count).asMillis = count.toNat * hourMs := by
  simp only [hours, Duration.fromSecs, Duration.asMillis, UInt64.toNat_mul, hourMs,
    show (60 * 60 : UInt64).toNat = 3600 from rfl]
  omega

theorem getElem?_gridOf (tiers : List (UInt64 × UInt64)) (index : Nat) :
    (gridOf tiers)[index]? = tiers[index]?.map fun tier =>
      ⟨(tiers[index + 1]?.map fun next => hours next.1).getD .max, hours tier.2⟩ := by
  induction tiers generalizing index with
  | nil => simp [gridOf]
  | cons tier rest inductionHypothesis =>
      cases index with
      | zero => simp [gridOf, List.head?_eq_getElem?]
      | succ index => simpa [gridOf] using inductionHypothesis index

theorem gridOf_retentionTiers : gridOf retentionTiers = RetentionPolicy.defaultGrid.tiers := by
  decide

theorem retentionTiers_small {index : Nat} {start width : UInt64}
    (read : retentionTiers[index]? = some (start, width)) :
    start.toNat ≤ 384 ∧ 1 < width.toNat ∧ width.toNat ≤ 384 := by
  have every : (retentionTiers.all fun tier =>
      tier.1.toNat ≤ 384 ∧ 1 < tier.2.toNat ∧ tier.2.toNat ≤ 384) = true := by decide
  exact of_decide_eq_true (List.all_eq_true.mp every _ (List.mem_of_getElem? read))

/-- A tier of the default grid, read off the list of hours. -/
theorem defaultGrid_tier {index : Nat} {tier : Tier}
    (read : RetentionPolicy.defaultGrid.tiers[index]? = some tier) :
    ∃ start width, retentionTiers[index]? = some (start, width) ∧
      tier = ⟨(retentionTiers[index + 1]?.map fun next => hours next.1).getD .max,
        hours width⟩ := by
  rw [← gridOf_retentionTiers, getElem?_gridOf] at read
  obtain ⟨⟨start, width⟩, found, rfl⟩ := Option.map_eq_some_iff.mp read
  exact ⟨start, width, found, rfl⟩

/-- What a cell key of the default grid says, in hours. -/
theorem inGrid_hours {nowMs timeMs : Int64} {key : Nat × Int64}
    (past : timeMs.toInt ≤ nowMs.toInt)
    (inGrid : InGrid RetentionPolicy.defaultGrid nowMs timeMs key) :
    ∃ start width, retentionTiers[key.1]? = some (start, width) ∧
      start.toNat * hourMs ≤ nowMs.toInt - timeMs.toInt ∧
      (∀ next, retentionTiers[key.1 + 1]? = some next →
        nowMs.toInt - timeMs.toInt < next.1.toNat * hourMs) ∧
      key.2.toInt = timeMs.toInt / (width.toNat * hourMs) := by
  obtain ⟨index, cell⟩ := key
  obtain ⟨tier, read, older, younger, place⟩ := inGrid
  obtain ⟨start, width, found, rfl⟩ := defaultGrid_tier read
  obtain ⟨startSmall, wide, widthSmall⟩ := retentionTiers_small found
  unfold saturatedAge at older younger
  refine ⟨start, width, found, ?_, ?_, ?_⟩
  · cases index with
    | zero =>
        cases found
        simpa using past
    | succ index =>
        obtain ⟨⟨earlier, earlierWidth⟩, earlierFound⟩ :
            ∃ pair, retentionTiers[index]? = some pair :=
          ⟨_, List.getElem?_eq_getElem
            (Nat.lt_of_succ_lt (List.getElem?_eq_some_iff.mp found).1)⟩
        have old := older index (Nat.lt_succ_self index) _ (by
          rw [← gridOf_retentionTiers, getElem?_gridOf, earlierFound]
          rfl)
        simp only [found, Option.map_some, Option.getD_some] at old
        rw [asNanos_hours (by omega)] at old
        unfold hourMs at old ⊢
        omega
  · intro next nextFound
    obtain ⟨nextSmall, -⟩ := retentionTiers_small nextFound
    have notLast : index + 1 ≠ RetentionPolicy.defaultGrid.tiers.length :=
      Nat.ne_of_lt (List.getElem?_eq_some_iff.mp nextFound).1
    have young := younger.resolve_right notLast
    simp only [nextFound, Option.map_some, Option.getD_some] at young
    rw [asNanos_hours (by omega)] at young
    unfold hourMs at young ⊢
    omega
  · rw [place, asMillis_hours (by omega)]
    congr 1
    unfold hourMs
    omega

/-- A key of the default grid for a snapshot younger than so many hours. -/
def Within (horizon : Nat) (nowMs : Int64) (key : Nat × Int64) : Prop :=
  ∃ timeMs : Int64, timeMs.toInt ≤ nowMs.toInt ∧
    nowMs.toInt - timeMs.toInt < horizon * hourMs ∧
      InGrid RetentionPolicy.defaultGrid nowMs timeMs key

/-- The hour at which a tier ends, within the horizon. -/
def stopOf (horizon index : Nat) : Nat :=
  min ((retentionTiers[index + 1]?.map fun next => next.1.toNat).getD horizon) horizon

/-- The snapshot of a key in one tier lies in the span of that tier. -/
theorem Within.span {horizon : Nat} {nowMs : Int64} {key : Nat × Int64}
    (within : Within horizon nowMs key) {start width : UInt64}
    (read : retentionTiers[key.1]? = some (start, width)) :
    ∃ timeMs : Int64, start.toNat * hourMs ≤ nowMs.toInt - timeMs.toInt ∧
      nowMs.toInt - timeMs.toInt < stopOf horizon key.1 * hourMs ∧
      key.2.toInt = timeMs.toInt / (width.toNat * hourMs) := by
  obtain ⟨timeMs, past, young, inGrid⟩ := within
  obtain ⟨_, _, found, old, before, place⟩ := inGrid_hours past inGrid
  rw [read] at found
  cases found
  refine ⟨timeMs, old, ?_, place⟩
  unfold stopOf
  cases next : retentionTiers[key.1 + 1]? with
  | none => simpa using young
  | some tier =>
      have ended := before tier next
      simp only [Option.map_some, Option.getD_some]
      unfold hourMs at young ended ⊢
      omega

theorem cellsOf_fills {horizon index : Nat} {start width : UInt64}
    (read : retentionTiers[index]? = some (start, width)) :
    stopOf horizon index - start.toNat ≤ width.toNat * cellsOf horizon index := by
  obtain ⟨-, wide, -⟩ := retentionTiers_small read
  have count : cellsOf horizon index =
      (stopOf horizon index - start.toNat + (width.toNat - 1)) / width.toNat := by
    simp only [cellsOf, read, stopOf]
  have parts := Nat.div_add_mod (stopOf horizon index - start.toNat + (width.toNat - 1))
    width.toNat
  have small := Nat.mod_lt (stopOf horizon index - start.toNat + (width.toNat - 1))
    (Nat.lt_trans Nat.zero_lt_one wide)
  rw [count]
  omega

/-- The keys of one tier are at most its cells and one more, and none where
the tier starts beyond the horizon. -/
theorem card_tier_le {keys : Finset (Nat × Int64)} {horizon : Nat} {nowMs : Int64}
    (within : ∀ key ∈ keys, Within horizon nowMs key) {index : Nat} {start width : UInt64}
    (read : retentionTiers[index]? = some (start, width)) :
    (keys.filter fun key => key.1 = index).card ≤
      cellsOf horizon index + if start.toNat < horizon then 1 else 0 := by
  obtain ⟨-, wide, -⟩ := retentionTiers_small read
  have places : ∀ key ∈ keys.filter (fun key => key.1 = index), ∃ timeMs : Int64,
      start.toNat * hourMs ≤ nowMs.toInt - timeMs.toInt ∧
      nowMs.toInt - timeMs.toInt < stopOf horizon index * hourMs ∧
      key.2.toInt = timeMs.toInt / (width.toNat * hourMs) := by
    intro key filtered
    obtain ⟨listed, rfl⟩ := Finset.mem_filter.mp filtered
    exact (within key listed).span read
  split
  next started =>
    have distinct : Set.InjOn (fun key : Nat × Int64 => key.2.toInt)
        (keys.filter fun key => key.1 = index) := by
      intro first firstListed second secondListed same
      have firstTier := (Finset.mem_filter.mp firstListed).2
      have secondTier := (Finset.mem_filter.mp secondListed).2
      exact Prod.ext (firstTier.trans secondTier.symm) (Int64.toInt_inj.mp same)
    rw [← Finset.card_image_of_injOn distinct]
    apply card_cells_le (width.toNat * hourMs) (nowMs.toInt - stopOf horizon index * hourMs)
      ((stopOf horizon index - start.toNat) * hourMs)
    · unfold hourMs
      omega
    · calc (((stopOf horizon index - start.toNat) * hourMs : Nat) : Int)
          ≤ (width.toNat * cellsOf horizon index * hourMs : Nat) := by
            exact_mod_cast Nat.mul_le_mul_right hourMs (cellsOf_fills read)
        _ = width.toNat * hourMs * cellsOf horizon index := by
            push_cast
            ring
    · intro cell listed
      obtain ⟨key, keyListed, rfl⟩ := Finset.mem_image.mp listed
      obtain ⟨timeMs, old, young, place⟩ := places key keyListed
      refine ⟨timeMs.toInt, by omega, ?_, place⟩
      unfold hourMs at old ⊢
      omega
  next beyond =>
    have early : stopOf horizon index ≤ horizon := Nat.min_le_right _ _
    have none : (keys.filter fun key => key.1 = index) = ∅ := by
      rw [Finset.eq_empty_iff_forall_notMem]
      intro key listed
      obtain ⟨timeMs, old, young, -⟩ := places key listed
      unfold hourMs at old young
      omega
    rw [none, Finset.card_empty]
    exact Nat.zero_le _

/-- One for a tier that starts below the horizon. -/
def startsBelow (horizon index : Nat) : Nat :=
  match retentionTiers[index]? with
  | none => 0
  | some (start, _) => if start.toNat < horizon then 1 else 0

theorem card_keys_le {keys : Finset (Nat × Int64)} {horizon : Nat} (nowMs : Int64)
    (within : ∀ key ∈ keys, Within horizon nowMs key) :
    keys.card ≤ ∑ index ∈ Finset.range 4, cellsOf horizon index +
      ∑ index ∈ Finset.range 4, startsBelow horizon index := by
  have tiered : ∀ key ∈ keys, key.1 ∈ Finset.range 4 := by
    intro key listed
    obtain ⟨timeMs, -, -, tier, read, -⟩ := within key listed
    exact Finset.mem_range.mpr (List.getElem?_eq_some_iff.mp read).1
  rw [Finset.card_eq_sum_card_fiberwise tiered, ← Finset.sum_add_distrib]
  apply Finset.sum_le_sum
  intro index listed
  obtain ⟨pair, read⟩ : ∃ pair, retentionTiers[index]? = some pair :=
    ⟨_, List.getElem?_eq_getElem (Finset.mem_range.mp listed)⟩
  have few := card_tier_le within read
  simpa only [startsBelow, read] using few

end Counting

section Kept

variable {Id : Type}

/-- The horizon in hours, where the multiplication saturates. -/
theorem age_lt_horizon {horizonDays : UInt64} {nowMs timeMs : Int64}
    (young : nowMs.toInt - timeMs.toInt < horizonDays.toNat * 24 * hourMs) :
    nowMs.toInt - timeMs.toInt < (Saturating.mul horizonDays 24).toNat * hourMs := by
  have lower := timeMs.le_toInt
  have upper := nowMs.toInt_lt
  rw [Saturating.toNat_mul, show (24 : UInt64).toNat = 24 from rfl]
  unfold hourMs at young ⊢
  omega

theorem sum_startsBelow (horizonDays : UInt64) :
    ∑ index ∈ Finset.range 4, startsBelow (Saturating.mul horizonDays 24).toNat index =
      startedTiers horizonDays := by
  simp [Finset.sum_range_succ, startsBelow, startedTiers, retentionTiers, List.countP_cons]
  omega

/-- The cells of the kept snapshots, one for each. -/
theorem exists_keys (nowMs : Int64) (snapshots : List (Int64 × Id)) :
    ∃ keys : Finset (Nat × Int64),
      keys.card = (plan nowMs snapshots .defaultGrid).keep.length ∧
      ∀ key ∈ keys, ∃ entry ∈ snapshots, InGrid .defaultGrid nowMs entry.1 key := by
  have nonempty : RetentionPolicy.defaultGrid.tiers ≠ [] := by decide
  obtain ⟨keyOf, keyOfIs⟩ : ∃ keyOf : Int64 → Nat × Int64, ∀ timeMs,
      cellKey .defaultGrid nowMs timeMs = some (keyOf timeMs) ∧
        InGrid .defaultGrid nowMs timeMs (keyOf timeMs) :=
    Classical.skolem.mp fun timeMs => exists_inGrid nonempty nowMs timeMs
  have distinct : ((keptEntries .defaultGrid nowMs snapshots).map
      fun entry => keyOf entry.1).Nodup := by
    have cells : ((keptEntries .defaultGrid nowMs snapshots).map
        fun entry => cellKey .defaultGrid nowMs entry.1).Nodup := nodup_cells_keptEntries nonempty
    simp only [keyOfIs] at cells
    apply List.Nodup.of_map some
    rw [List.map_map]
    exact cells
  refine ⟨((keptEntries .defaultGrid nowMs snapshots).map fun entry => keyOf entry.1).toFinset,
    ?_, ?_⟩
  · rw [List.toFinset_card_of_nodup distinct, keep_plan, List.length_map, List.length_map]
  · intro key listed
    obtain ⟨entry, kept, rfl⟩ := List.mem_map.mp (List.mem_toFinset.mp listed)
    exact ⟨entry, (keptEntries_sublist _ _ _).subset kept, (keyOfIs entry.1).2⟩

/-- The default grid keeps no more snapshots than the projection counts cells,
and one for each tier that has begun; both use the same tiers. -/
theorem kept_snapshots_are_bounded (horizonDays : UInt64) (nowMs : Int64)
    (snapshots : List (Int64 × Id))
    (aged : ∀ entry ∈ snapshots, 0 ≤ nowMs.toInt - entry.1.toInt ∧
      nowMs.toInt - entry.1.toInt < horizonDays.toNat * (24 * 60 * 60 * 1000)) :
    (plan nowMs snapshots .defaultGrid).keep.length ≤
        (steadyStateSnapshots horizonDays).toNat + startedTiers horizonDays ∧
      startedTiers horizonDays ≤ 4 ∧
      retentionTiers.head?.map Prod.fst = some 0 ∧
      gridOf retentionTiers = RetentionPolicy.defaultGrid.tiers := by
  refine ⟨?_, List.countP_le_length, rfl, gridOf_retentionTiers⟩
  obtain ⟨keys, count, fromEntry⟩ := exists_keys nowMs snapshots
  rw [← count, toNat_steadyStateSnapshots, ← sum_startsBelow]
  apply card_keys_le nowMs
  intro key listed
  obtain ⟨entry, given, inGrid⟩ := fromEntry key listed
  obtain ⟨past, young⟩ := aged entry given
  refine ⟨entry.1, by omega, age_lt_horizon ?_, inGrid⟩
  unfold hourMs
  omega

/-- Snapshots of one week, one every six hours. -/
def weekOfSnapshots : List (Int64 × Nat) :=
  (List.range 28).map fun count => (604800000 - 21600000 * Int64.ofNat count, count)

theorem week_of_snapshots_is_bounded :
    (plan 604800000 weekOfSnapshots .defaultGrid).keep.length ≤
      (steadyStateSnapshots 7).toNat + startedTiers 7 := by
  have aged : ∀ entry ∈ weekOfSnapshots, 0 ≤ (604800000 : Int64).toInt - entry.1.toInt ∧
      (604800000 : Int64).toInt - entry.1.toInt <
        (7 : UInt64).toNat * (24 * 60 * 60 * 1000) := by decide
  exact (kept_snapshots_are_bounded 7 604800000 weekOfSnapshots aged).1

end Kept

end Busyncr.Retention
