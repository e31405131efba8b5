import Busyncr.Core.Retention

/-!
What the retention plan computes, for every policy that can be built.

The plan keeps the entries at some positions and drops the others; an entry is
kept exactly when none of its cell has a greater (time, position).  The cell
is said here in unbounded arithmetic, so that nothing is left of the widths of
the machine integers.
-/

namespace Busyncr.Retention

open Std

attribute [local instance] lexOrd

/-- The policies callers can get hold of. -/
def RetentionPolicy.Built (policy : RetentionPolicy) : Prop :=
  (∃ tiers, fromTiers tiers = .ok policy) ∨ policy = defaultGrid

/-- The age of a snapshot in milliseconds, held between zero and `i64::MAX`. -/
def saturatedAge (nowMs timeMs : Int64) : Nat :=
  (min (nowMs.toInt - timeMs.toInt) (2 ^ 63 - 1)).toNat

/-- The first tier that is older than the age, or the last tier; and the cell
of its width, of at least a millisecond, that the time falls into. -/
def InGrid (policy : RetentionPolicy) (nowMs timeMs : Int64) (key : Nat × Int64) : Prop :=
  ∃ tier, policy.tiers[key.1]? = some tier ∧
    (∀ earlier < key.1, ∀ younger, policy.tiers[earlier]? = some younger →
      younger.maxAge.asNanos ≤ saturatedAge nowMs timeMs * 10 ^ 6) ∧
    (saturatedAge nowMs timeMs * 10 ^ 6 < tier.maxAge.asNanos ∨
      key.1 + 1 = policy.tiers.length) ∧
    key.2.toInt = timeMs.toInt / max 1 (min (tier.cell.asMillis : Int) (2 ^ 63 - 1))

/-- The result is the plan of the entries at the kept positions. -/
structure PlanOf {Id : Type} (policy : RetentionPolicy) (nowMs : Int64)
    (snapshots : List (Int64 × Id)) (kept : Nat → Bool) (result : Plan Id) : Prop where
  keep : result.keep = (snapshots.zipIdx.filter fun entry => kept entry.2).map (·.1.2)
  drop : result.drop = (snapshots.zipIdx.filter fun entry => !kept entry.2).map (·.1.2)
  inGrid : ∀ (position : Nat) timeMs id, snapshots[position]? = some (timeMs, id) →
    ∃ key, cellKey policy nowMs timeMs = some key ∧ InGrid policy nowMs timeMs key
  newest : ∀ (position : Nat) timeMs id key, snapshots[position]? = some (timeMs, id) →
    cellKey policy nowMs timeMs = some key →
      (kept position = true ↔ ∀ (other : Nat) otherTime otherId,
        snapshots[other]? = some (otherTime, otherId) →
          cellKey policy nowMs otherTime = some key →
            otherTime.toInt < timeMs.toInt ∨ otherTime = timeMs ∧ other ≤ position)
  unique : ∀ (position : Nat) timeMs id key, snapshots[position]? = some (timeMs, id) →
    cellKey policy nowMs timeMs = some key →
      ∃! holder : Nat, kept holder = true ∧ ∃ holderTime holderId,
        snapshots[holder]? = some (holderTime, holderId) ∧
          cellKey policy nowMs holderTime = some key
  dropped : ∀ (position : Nat) timeMs id key, snapshots[position]? = some (timeMs, id) →
    cellKey policy nowMs timeMs = some key → kept position = false →
      ∃ (holder : Nat) (holderTime : Int64) (holderId : Id), kept holder = true ∧
        snapshots[holder]? = some (holderTime, holderId) ∧
        cellKey policy nowMs holderTime = some key ∧
        (timeMs.toInt < holderTime.toInt ∨ timeMs = holderTime ∧ position < holder)
  greatest : ∀ (position : Nat) timeMs id, snapshots[position]? = some (timeMs, id) →
    (∀ (other : Nat) otherTime otherId, snapshots[other]? = some (otherTime, otherId) →
      otherTime.toInt < timeMs.toInt ∨ otherTime = timeMs ∧ other ≤ position) →
        kept position = true

section Grid

variable {policy : RetentionPolicy} {nowMs timeMs : Int64}

theorem RetentionPolicy.Built.nonempty (built : policy.Built) : policy.tiers ≠ [] := by
  obtain ⟨tiers, made⟩ | rfl := built
  · unfold fromTiers at made
    split at made
    next => cases made
    next nonempty =>
      split at made
      next => cases made
      next =>
        cases made
        simpa using nonempty
  · decide

theorem asNanos_ageOf (nowMs timeMs : Int64) :
    (ageOf nowMs timeMs).asNanos = saturatedAge nowMs timeMs * 10 ^ 6 := by
  have zero : (0 : Int64).toInt = 0 := rfl
  have age : (max (Saturating.signedSub nowMs timeMs) 0).toInt =
      max (max (-2 ^ 63) (min (nowMs.toInt - timeMs.toInt) (2 ^ 63 - 1))) 0 := by
    rw [Saturating.toInt_max, Saturating.toInt_signedSub, zero]
  have nonneg : 0 ≤ max (Saturating.signedSub nowMs timeMs) 0 := by
    rw [Int64.le_iff_toInt_le, age, zero]
    omega
  rw [ageOf, Duration.asNanos_fromMillis, Int64.toNat_toUInt64_of_le nonneg, ← Int64.toNat_toInt,
    age, saturatedAge]
  congr 1
  omega

theorem toInt_cellMs (tier : Tier) :
    tier.cellMs.toInt = max 1 (min (tier.cell.asMillis : Int) (2 ^ 63 - 1)) := by
  have one : (1 : Int64).toInt = 1 := rfl
  rw [Tier.cellMs, Saturating.toInt_max, Saturating.toInt_ofIntClamp, one]
  omega

theorem firstTier_younger {age : Duration} {tiers : List Tier} {start index : Nat} {tier : Tier}
    (found : RetentionPolicy.firstTier age start tiers = some (index, tier)) :
    age < tier.maxAge ∧ ∀ earlier, start + earlier < index →
      ∀ younger, tiers[earlier]? = some younger → ¬ age < younger.maxAge := by
  induction tiers generalizing start with
  | nil => cases found
  | cons head rest inductionHypothesis =>
      simp only [RetentionPolicy.firstTier] at found
      split at found
      next young =>
        cases found
        exact ⟨young, fun earlier before => by omega⟩
      next old =>
        obtain ⟨young, others⟩ := inductionHypothesis found
        refine ⟨young, fun earlier before younger read => ?_⟩
        cases earlier with
        | zero =>
            cases read
            exact old
        | succ earlier => exact others earlier (by omega) younger read

theorem firstTier_none {age : Duration} {tiers : List Tier} {start : Nat}
    (absent : RetentionPolicy.firstTier age start tiers = none) :
    ∀ tier ∈ tiers, ¬ age < tier.maxAge := by
  induction tiers generalizing start with
  | nil => simp
  | cons head rest inductionHypothesis =>
      simp only [RetentionPolicy.firstTier] at absent
      split at absent
      next => cases absent
      next old => exact List.forall_mem_cons.mpr ⟨old, inductionHypothesis absent⟩

/-- The tier selected for an age: the first it is younger than, or the last. -/
theorem tierFor_first {age : Duration} {index : Nat} {tier : Tier}
    (selected : policy.tierFor age = some (index, tier)) :
    (∀ earlier < index, ∀ younger, policy.tiers[earlier]? = some younger →
        ¬ age < younger.maxAge) ∧
      (age < tier.maxAge ∨ index + 1 = policy.tiers.length) := by
  unfold RetentionPolicy.tierFor at selected
  cases found : RetentionPolicy.firstTier age 0 policy.tiers with
  | some pair =>
      rw [found] at selected
      cases selected
      obtain ⟨young, others⟩ := firstTier_younger found
      exact ⟨fun earlier before => others earlier (by omega), .inl young⟩
  | none =>
      simp only [found, Option.map_eq_some_iff] at selected
      obtain ⟨last, isLast, same⟩ := selected
      cases same
      have positive : 0 < policy.tiers.length := by
        apply List.length_pos_of_ne_nil
        rintro empty
        simp [empty] at isLast
      refine ⟨fun earlier _ younger read => ?_, .inr (by omega)⟩
      exact firstTier_none found younger (List.mem_of_getElem? read)

theorem exists_inGrid (nonempty : policy.tiers ≠ []) (nowMs timeMs : Int64) :
    ∃ key, cellKey policy nowMs timeMs = some key ∧ InGrid policy nowMs timeMs key := by
  obtain ⟨index, tier, selected⟩ := exists_tierFor nonempty (ageOf nowMs timeMs)
  obtain ⟨first, young⟩ := tierFor_first selected
  refine ⟨(index, Saturating.divEuclid timeMs tier.cellMs), by simp [cellKey, selected], tier,
    tierFor_eq_some selected, ?_, ?_, ?_⟩
  · intro earlier before younger read
    rw [← asNanos_ageOf]
    exact Nat.le_of_not_lt (first earlier before younger read)
  · rw [← asNanos_ageOf]
    exact young
  · rw [Saturating.toInt_divEuclid (cellMs_pos tier), toInt_cellMs]

end Grid

/-- Whether the survivor map refers to a position. -/
def keptAt {Id : Type} (policy : RetentionPolicy) (nowMs : Int64)
    (snapshots : List (Int64 × Id)) (position : Nat) : Bool :=
  decide (position ∈ (survivorLoop policy nowMs ∅ 0 snapshots).toList.map (·.2.2))

section Positions

variable {Id : Type} {policy : RetentionPolicy} {nowMs : Int64} {snapshots : List (Int64 × Id)}

theorem keptAt_iff {position : Nat} : keptAt policy nowMs snapshots position = true ↔
    ∃ key timeMs, Survives policy nowMs snapshots key timeMs position := by
  rw [keptAt, decide_eq_true_eq]
  exact (bestOf_survivorLoop snapshots).mem_positions_iff

/-- A kept entry survives in its own cell. -/
theorem survives_of_keptAt {position : Nat} {timeMs : Int64} {id : Id} {key : Nat × Int64}
    (read : snapshots[position]? = some (timeMs, id))
    (inCell : cellKey policy nowMs timeMs = some key)
    (kept : keptAt policy nowMs snapshots position = true) :
    Survives policy nowMs snapshots key timeMs position := by
  obtain ⟨otherKey, otherTime, survives⟩ := keptAt_iff.mp kept
  obtain ⟨otherId, otherRead⟩ := survives.entry
  rw [read] at otherRead
  cases otherRead
  obtain rfl : key = otherKey := Option.some.inj (inCell.symm.trans survives.inCell)
  exact survives

/-- Every occupied cell has a survivor. -/
theorem exists_survives {position : Nat} {timeMs : Int64} {id : Id} {key : Nat × Int64}
    (read : snapshots[position]? = some (timeMs, id))
    (inCell : cellKey policy nowMs timeMs = some key) :
    ∃ holderTime holder, Survives policy nowMs snapshots key holderTime holder := by
  have meaning : BestOf policy nowMs snapshots _ := bestOf_survivorLoop snapshots
  obtain ⟨holderTime, holder, held⟩ := meaning.covered position timeMs id key read inCell
  exact ⟨holderTime, holder, meaning.sound key holderTime holder held⟩

theorem planOf_plan (nonempty : policy.tiers ≠ []) :
    PlanOf policy nowMs snapshots (keptAt policy nowMs snapshots)
      (plan nowMs snapshots policy) := by
  have tiered : policy.tiers.isEmpty = false := by simpa using nonempty
  constructor
  case keep => simp only [plan, tiered, Bool.false_eq_true, if_false, keptAt]
  case drop => simp only [plan, tiered, Bool.false_eq_true, if_false, keptAt, decide_not]
  case inGrid => exact fun _ timeMs _ _ => exists_inGrid nonempty nowMs timeMs
  case newest =>
    intro position timeMs id key read inCell
    constructor
    · intro kept
      exact (survives_of_keptAt read inCell kept).newest
    · intro newest
      exact keptAt_iff.mpr ⟨key, timeMs, ⟨id, read⟩, inCell, newest⟩
  case unique =>
    intro position timeMs id key read inCell
    obtain ⟨holderTime, holder, survives⟩ := exists_survives read inCell
    obtain ⟨holderId, holderRead⟩ := survives.entry
    refine ⟨holder, ⟨keptAt_iff.mpr ⟨key, holderTime, survives⟩, holderTime, holderId, holderRead,
      survives.inCell⟩, ?_⟩
    rintro other ⟨kept, otherTime, otherId, otherRead, otherCell⟩
    exact ((survives_of_keptAt otherRead otherCell kept).unique survives).2
  case dropped =>
    intro position timeMs id key read inCell isDropped
    obtain ⟨holderTime, holder, survives⟩ := exists_survives read inCell
    obtain ⟨holderId, holderRead⟩ := survives.entry
    have holds : keptAt policy nowMs snapshots holder = true :=
      keptAt_iff.mpr ⟨key, holderTime, survives⟩
    refine ⟨holder, holderTime, holderId, holds, holderRead, survives.inCell, ?_⟩
    obtain less | ⟨equal, notLater⟩ := survives.newest position timeMs id read inCell
    · exact .inl less
    · refine .inr ⟨equal, Nat.lt_of_le_of_ne notLater ?_⟩
      rintro rfl
      rw [holds] at isDropped
      cases isDropped
  case greatest =>
    intro position timeMs id read newest
    obtain ⟨key, inCell, -⟩ := exists_inGrid nonempty nowMs timeMs
    exact keptAt_iff.mpr ⟨key, timeMs, ⟨id, read⟩, inCell,
      fun other otherTime otherId otherRead _ => newest other otherTime otherId otherRead⟩

/-- The entries the plan keeps, with their times. -/
def keptEntries {Id : Type} (policy : RetentionPolicy) (nowMs : Int64)
    (snapshots : List (Int64 × Id)) : List (Int64 × Id) :=
  if policy.tiers.isEmpty then snapshots
  else (snapshots.zipIdx.filter fun entry => keptAt policy nowMs snapshots entry.2).map Prod.fst

theorem keep_plan (nowMs : Int64) (snapshots : List (Int64 × Id)) (policy : RetentionPolicy) :
    (plan nowMs snapshots policy).keep = (keptEntries policy nowMs snapshots).map Prod.snd := by
  unfold keptEntries
  split
  next empty => simp [plan, empty]
  next nonempty =>
    rw [(planOf_plan (by simpa using nonempty)).keep, List.map_map]
    rfl

theorem keptEntries_sublist (policy : RetentionPolicy) (nowMs : Int64)
    (snapshots : List (Int64 × Id)) : (keptEntries policy nowMs snapshots).Sublist snapshots := by
  unfold keptEntries
  split
  next => exact List.Sublist.refl _
  next =>
    have filtered : ((snapshots.zipIdx.filter fun entry =>
        keptAt policy nowMs snapshots entry.2).map Prod.fst).Sublist
          (snapshots.zipIdx.map Prod.fst) := List.filter_sublist.map Prod.fst
    rwa [List.zipIdx_map_fst] at filtered

theorem map_zipIdx_value (snapshots : List (Int64 × Id)) :
    snapshots.zipIdx.map (·.1.2) = snapshots.map Prod.snd := by
  conv_rhs => rw [← List.zipIdx_map_fst 0 snapshots, List.map_map]
  rfl

/-- What is kept and what is dropped make up the input. -/
theorem keep_append_drop_perm (nowMs : Int64) (snapshots : List (Int64 × Id))
    (policy : RetentionPolicy) :
    ((plan nowMs snapshots policy).keep ++ (plan nowMs snapshots policy).drop).Perm
      (snapshots.map Prod.snd) := by
  by_cases nonempty : policy.tiers = []
  · simp [plan, nonempty]
  · have spec : PlanOf policy nowMs snapshots _ (plan nowMs snapshots policy) :=
      planOf_plan nonempty
    rw [spec.keep, spec.drop, ← List.map_append, ← map_zipIdx_value]
    exact (List.filter_append_perm _ _).map _

/-- No two kept entries share a cell. -/
theorem nodup_cells_keptEntries (nonempty : policy.tiers ≠ []) :
    ((keptEntries policy nowMs snapshots).map fun entry => cellKey policy nowMs entry.1).Nodup := by
  have tiered : policy.tiers.isEmpty = false := by simpa using nonempty
  simp only [keptEntries, tiered, Bool.false_eq_true, if_false, List.map_map]
  apply List.Nodup.map_on
  · rintro ⟨⟨timeMs, id⟩, position⟩ listed ⟨⟨otherTime, otherId⟩, other⟩ otherListed same
    obtain ⟨listed, kept⟩ := List.mem_filter.mp listed
    obtain ⟨otherListed, otherKept⟩ := List.mem_filter.mp otherListed
    have read := List.mem_zipIdx_iff_getElem?.mp listed
    have otherRead := List.mem_zipIdx_iff_getElem?.mp otherListed
    obtain ⟨key, inCell, -⟩ := exists_inGrid nonempty nowMs timeMs
    have survives := survives_of_keptAt read inCell kept
    have otherSurvives := survives_of_keptAt otherRead (same.symm.trans inCell) otherKept
    obtain ⟨rfl, rfl⟩ := survives.unique otherSurvives
    rw [read] at otherRead
    cases otherRead
    rfl
  · apply List.Nodup.filter
    apply List.Nodup.of_map Prod.snd
    rw [List.zipIdx_map_snd]
    exact List.nodup_range'

/-- Entries in cells of their own are all kept. -/
theorem plan_of_nodup_cells (nonempty : policy.tiers ≠ [])
    (distinct : (snapshots.map fun entry => cellKey policy nowMs entry.1).Nodup) :
    plan nowMs snapshots policy = ⟨snapshots.map Prod.snd, []⟩ := by
  have spec : PlanOf policy nowMs snapshots _ (plan nowMs snapshots policy) := planOf_plan nonempty
  have kept : ∀ entry ∈ snapshots.zipIdx, keptAt policy nowMs snapshots entry.2 = true := by
    rintro ⟨⟨timeMs, id⟩, position⟩ listed
    have read := List.mem_zipIdx_iff_getElem?.mp listed
    obtain ⟨key, inCell, -⟩ := spec.inGrid position timeMs id read
    refine (spec.newest position timeMs id key read inCell).mpr ?_
    intro other otherTime otherId otherRead otherCell
    have same : (snapshots.map fun entry => cellKey policy nowMs entry.1)[other]? =
        (snapshots.map fun entry => cellKey policy nowMs entry.1)[position]? := by
      simp [otherRead, read, otherCell, inCell]
    have inRange : other < (snapshots.map fun entry => cellKey policy nowMs entry.1).length := by
      rw [List.length_map]
      exact (List.getElem?_eq_some_iff.mp otherRead).1
    obtain rfl : other = position := (List.getElem?_inj inRange distinct).mp same
    rw [read] at otherRead
    cases otherRead
    exact .inr ⟨rfl, Nat.le_refl _⟩
  have keeps := spec.keep
  have drops := spec.drop
  rw [List.filter_eq_self.mpr kept] at keeps
  rw [List.filter_eq_nil_iff.mpr fun entry listed => by simp [kept entry listed]] at drops
  rw [map_zipIdx_value] at keeps
  calc plan nowMs snapshots policy
      = ⟨(plan nowMs snapshots policy).keep, (plan nowMs snapshots policy).drop⟩ := rfl
    _ = ⟨snapshots.map Prod.snd, []⟩ := by rw [keeps, drops, List.map_nil]

/-- The plan is stable on what it keeps. -/
theorem plan_keptEntries (nowMs : Int64) (snapshots : List (Int64 × Id))
    (policy : RetentionPolicy) :
    plan nowMs (keptEntries policy nowMs snapshots) policy =
      ⟨(plan nowMs snapshots policy).keep, []⟩ := by
  rw [keep_plan]
  by_cases nonempty : policy.tiers = []
  · simp [plan, nonempty]
  · exact plan_of_nodup_cells nonempty (nodup_cells_keptEntries nonempty)

theorem size_offer_le (best : Best) (timeMs : Int64) (position : Nat) :
    (offer policy nowMs best timeMs position).size ≤ best.size + 1 := by
  unfold offer
  split
  next => omega
  next key _ =>
    have inserted : (best.insert key (timeMs, position)).size ≤ best.size + 1 :=
      ExtTreeMap.size_insert_le
    split
    next =>
      split
      next => omega
      next => exact inserted
    next => exact inserted

/-- The survivors are no more than the entries, so that what the source
reserves for the rest is never negative. -/
theorem size_survivorLoop_le (policy : RetentionPolicy) (nowMs : Int64) (best : Best)
    (position : Nat) (entries : List (Int64 × Id)) :
    (survivorLoop policy nowMs best position entries).size ≤ best.size + entries.length := by
  induction entries generalizing best position with
  | nil => exact Nat.le_refl _
  | cons entry rest inductionHypothesis =>
      obtain ⟨timeMs, id⟩ := entry
      have offered : (offer policy nowMs best timeMs position).size ≤ best.size + 1 :=
        size_offer_le best timeMs position
      have later := inductionHypothesis (offer policy nowMs best timeMs position) (position + 1)
      simp only [survivorLoop, List.length_cons]
      omega

end Positions

/-- The plan of every list of entries at every instant, under every policy
that can be built. -/
theorem plan_specification {Id : Type} {policy : RetentionPolicy} (built : policy.Built)
    (nowMs : Int64) (snapshots : List (Int64 × Id)) :
    (∃ kept, PlanOf policy nowMs snapshots kept (plan nowMs snapshots policy)) ∧
      (survivorLoop policy nowMs ∅ 0 snapshots).size ≤ snapshots.length ∧
      ∀ tier ∈ policy.tiers, 1 ≤ tier.cellMs.toInt := by
  refine ⟨⟨_, planOf_plan built.nonempty⟩, ?_, fun tier _ => cellMs_pos tier⟩
  simpa using size_survivorLoop_le policy nowMs ∅ 0 snapshots

/-- A grid of one tier, with cells below a millisecond. -/
def finestGrid : RetentionPolicy := ⟨[⟨.max, ⟨0, 5, by decide, by decide⟩⟩]⟩

/-- Times at both ends of the range. -/
def extremeTimes : List (Int64 × Nat) := [(.minValue, 0), (.maxValue, 1)]

theorem plan_of_extremeTimes :
    ∃ kept, PlanOf finestGrid .maxValue extremeTimes kept
      (plan .maxValue extremeTimes finestGrid) :=
  (plan_specification (.inl ⟨finestGrid.tiers, rfl⟩) _ _).1

end Busyncr.Retention
