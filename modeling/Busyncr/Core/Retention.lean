import Std.Data.ExtTreeMap.Lemmas
import Mathlib.Data.List.Basic
import Busyncr.Lib.OrderedTable
import Busyncr.Lib.Saturating

/-!
The retention grid: tiers by age, epoch-aligned cells, and the thinning plan.

The plan folds the input into a map from (tier, cell) to the newest entry
seen.  `BestOf` is the meaning of that map for the entries read so far; it
holds after every iteration and determines what the plan keeps and drops.
-/

namespace Busyncr.Retention

open Std

attribute [local instance] lexOrd

/-- One tier of the grid: snapshots younger than `maxAge` are thinned to one
for each `cell` window. -/
structure Tier where
  maxAge : Duration
  cell : Duration
deriving DecidableEq

/-- Cell width in whole milliseconds, clamped to `1..=i64::MAX`. -/
def Tier.cellMs (tier : Tier) : Int64 := max (Int64.ofIntClamp tier.cell.asMillis) 1

/-- An ordered set of tiers. -/
structure RetentionPolicy where
  tiers : List Tier
deriving DecidableEq

inductive RetentionError where
  | noTiers
  | zeroCell (index : Nat)
  | unordered (index : Nat)
deriving DecidableEq

def threeHours : Duration := .fromSecs (3 * 60 * 60)
def oneDay : Duration := .fromSecs (24 * 60 * 60)
def fourDays : Duration := .fromSecs (4 * 24 * 60 * 60)
def sixteenDays : Duration := .fromSecs (16 * 24 * 60 * 60)

namespace RetentionPolicy

/-- The default grid: 3 h / 24 h / 4 d / 16 d cells across four age tiers. -/
def defaultGrid : RetentionPolicy :=
  ⟨[⟨oneDay, threeHours⟩, ⟨fourDays, oneDay⟩, ⟨sixteenDays, fourDays⟩,
    ⟨.max, sixteenDays⟩]⟩

/-- The validation loop of `from_tiers`, with the tier before the current
one. -/
def checkTiers : (index : Nat) → (previous : Option Tier) → List Tier →
    Except RetentionError Unit
  | _, _, [] => .ok ()
  | index, previous, tier :: rest =>
      if tier.cell.asNanos = 0 then .error (.zeroCell index)
      else if previous.any fun earlier => tier.maxAge < earlier.maxAge then
        .error (.unordered index)
      else checkTiers (index + 1) (some tier) rest

/-- Build a policy from caller-supplied tiers. -/
def fromTiers (tiers : List Tier) : Except RetentionError RetentionPolicy :=
  if tiers.isEmpty then .error .noTiers
  else
    match checkTiers 0 none tiers with
    | .error error => .error error
    | .ok () => .ok ⟨tiers⟩

/-- The first tier at or after `index` whose `maxAge` exceeds the age. -/
def firstTier (age : Duration) : (index : Nat) → List Tier → Option (Nat × Tier)
  | _, [] => none
  | index, tier :: rest =>
      if age < tier.maxAge then some (index, tier) else firstTier age (index + 1) rest

/-- The tier of a snapshot of the given age, else the last tier; `none` only
for a policy without tiers. -/
def tierFor (policy : RetentionPolicy) (age : Duration) : Option (Nat × Tier) :=
  match firstTier age 0 policy.tiers with
  | some found => some found
  | none => policy.tiers.getLast?.map fun last => (policy.tiers.length - 1, last)

end RetentionPolicy

/-- Which snapshots survive and which are pruned, in input order. -/
structure Plan (Id : Type) where
  keep : List Id
  drop : List Id
deriving DecidableEq

/-- The saturated age of a snapshot; one dated after now has age zero. -/
def ageOf (nowMs timeMs : Int64) : Duration :=
  .fromMillis (max (Saturating.signedSub nowMs timeMs) 0).toUInt64

/-- The (tier, cell) a snapshot falls into. -/
def cellKey (policy : RetentionPolicy) (nowMs timeMs : Int64) : Option (Nat × Int64) :=
  (policy.tierFor (ageOf nowMs timeMs)).map fun (index, tier) =>
    (index, Saturating.divEuclid timeMs tier.cellMs)

/-- (tier, cell) to the best time so far and the input position holding it. -/
abbrev Best := ExtTreeMap (Nat × Int64) (Int64 × Nat)

/-- One iteration of the survivor loop. -/
def offer (policy : RetentionPolicy) (nowMs : Int64) (best : Best) (timeMs : Int64)
    (position : Nat) : Best :=
  match cellKey policy nowMs timeMs with
  | none => best
  | some key =>
      match best[key]? with
      | some (bestTime, _) =>
          if timeMs < bestTime then best else best.insert key (timeMs, position)
      | none => best.insert key (timeMs, position)

/-- The survivor loop from a given input position on. -/
def survivorLoop {Id : Type} (policy : RetentionPolicy) (nowMs : Int64) :
    Best → (position : Nat) → List (Int64 × Id) → Best
  | best, _, [] => best
  | best, position, (timeMs, _) :: rest =>
      survivorLoop policy nowMs (offer policy nowMs best timeMs position) (position + 1) rest

/-- The retention plan of a list of (time, id) pairs at an instant. -/
def plan {Id : Type} (nowMs : Int64) (snapshots : List (Int64 × Id))
    (policy : RetentionPolicy) : Plan Id :=
  if policy.tiers.isEmpty then
    { keep := snapshots.map Prod.snd, drop := [] }
  else
    let survivors := (survivorLoop policy nowMs ∅ 0 snapshots).toList.map (·.2.2)
    { keep := (snapshots.zipIdx.filter fun entry => decide (entry.2 ∈ survivors)).map (·.1.2)
      drop := (snapshots.zipIdx.filter fun entry => decide (entry.2 ∉ survivors)).map (·.1.2) }

section Survivors

variable {Id : Type} (policy : RetentionPolicy) (nowMs : Int64)

/-- The entry at a position holds its cell: none of the cell is newer, and
none of the same time stands later in the input. -/
structure Survives (snapshots : List (Int64 × Id)) (key : Nat × Int64) (timeMs : Int64)
    (position : Nat) : Prop where
  entry : ∃ id, snapshots[position]? = some (timeMs, id)
  inCell : cellKey policy nowMs timeMs = some key
  newest : ∀ (other : Nat) (otherTime : Int64) (id : Id),
    snapshots[other]? = some (otherTime, id) → cellKey policy nowMs otherTime = some key →
      otherTime.toInt < timeMs.toInt ∨ otherTime = timeMs ∧ other ≤ position

/-- The meaning of the survivor map for the entries read so far: it holds
only survivors, and a cell with an entry has one. -/
structure BestOf (snapshots : List (Int64 × Id)) (best : Best) : Prop where
  sound : ∀ key timeMs position, best[key]? = some (timeMs, position) →
    Survives policy nowMs snapshots key timeMs position
  covered : ∀ (position : Nat) (timeMs : Int64) (id : Id) (key : Nat × Int64),
    snapshots[position]? = some (timeMs, id) → cellKey policy nowMs timeMs = some key →
      ∃ holderTime holder, best[key]? = some (holderTime, holder)

variable {policy nowMs}

theorem Survives.unique {snapshots : List (Int64 × Id)} {key : Nat × Int64}
    {firstTime secondTime : Int64} {first second : Nat}
    (firstSurvives : Survives policy nowMs snapshots key firstTime first)
    (secondSurvives : Survives policy nowMs snapshots key secondTime second) :
    firstTime = secondTime ∧ first = second := by
  rcases firstSurvives.entry with ⟨firstId, firstRead⟩
  rcases secondSurvives.entry with ⟨secondId, secondRead⟩
  have forward := firstSurvives.newest second secondTime secondId secondRead
    secondSurvives.inCell
  have backward := secondSurvives.newest first firstTime firstId firstRead
    firstSurvives.inCell
  grind

theorem getElem?_concat_iff {snapshots : List (Int64 × Id)} {item entry : Int64 × Id}
    {position : Nat} :
    (snapshots ++ [item])[position]? = some entry ↔
      snapshots[position]? = some entry ∨ position = snapshots.length ∧ item = entry := by
  rcases Nat.lt_trichotomy position snapshots.length with earlier | same | later
  · rw [List.getElem?_append_left earlier]
    simp [Nat.ne_of_lt earlier]
  · subst same
    simp
  · have beyond : (snapshots ++ [item]).length ≤ position := by simp; omega
    rw [List.getElem?_eq_none beyond, List.getElem?_eq_none (by omega)]
    simp [Nat.ne_of_gt later]

/-- An entry read into another cell leaves the survivor of a cell as it was. -/
theorem survives_concat_other {snapshots : List (Int64 × Id)} {key : Nat × Int64}
    {timeMs newTime : Int64} {position : Nat} {id : Id}
    (elsewhere : cellKey policy nowMs newTime ≠ some key) :
    Survives policy nowMs (snapshots ++ [(newTime, id)]) key timeMs position ↔
      Survives policy nowMs snapshots key timeMs position := by
  constructor
  · rintro ⟨⟨entryId, read⟩, inCell, newest⟩
    refine ⟨⟨entryId, ?_⟩, inCell, ?_⟩
    · rcases getElem?_concat_iff.mp read with earlier | ⟨_, same⟩
      · exact earlier
      · cases same
        exact absurd inCell elsewhere
    · intro other otherTime otherId otherRead
      exact newest other otherTime otherId (getElem?_concat_iff.mpr (.inl otherRead))
  · rintro ⟨⟨entryId, read⟩, inCell, newest⟩
    refine ⟨⟨entryId, getElem?_concat_iff.mpr (.inl read)⟩, inCell, ?_⟩
    intro other otherTime otherId otherRead otherCell
    rcases getElem?_concat_iff.mp otherRead with earlier | ⟨_, same⟩
    · exact newest other otherTime otherId earlier otherCell
    · cases same
      exact absurd otherCell elsewhere

/-- An entry older than the holder of its cell does not change the holder. -/
theorem survives_concat_older {snapshots : List (Int64 × Id)} {key : Nat × Int64}
    {bestTime newTime : Int64} {holder : Nat} {id : Id}
    (holds : Survives policy nowMs snapshots key bestTime holder)
    (older : newTime < bestTime) :
    Survives policy nowMs (snapshots ++ [(newTime, id)]) key bestTime holder := by
  rcases holds with ⟨⟨entryId, read⟩, inCell, newest⟩
  refine ⟨⟨entryId, getElem?_concat_iff.mpr (.inl read)⟩, inCell, ?_⟩
  intro other otherTime otherId otherRead otherCell
  rcases getElem?_concat_iff.mp otherRead with earlier | ⟨_, same⟩
  · exact newest other otherTime otherId earlier otherCell
  · cases same
    exact .inl (Int64.lt_iff_toInt_lt.mp older)

/-- An entry at least as new as everything in its cell takes the cell. -/
theorem survives_concat_newer {snapshots : List (Int64 × Id)} {key : Nat × Int64}
    {newTime : Int64} {id : Id} (inCell : cellKey policy nowMs newTime = some key)
    (newest : ∀ (other : Nat) (otherTime : Int64) (otherId : Id),
      snapshots[other]? = some (otherTime, otherId) →
        cellKey policy nowMs otherTime = some key → otherTime.toInt ≤ newTime.toInt) :
    Survives policy nowMs (snapshots ++ [(newTime, id)]) key newTime snapshots.length := by
  refine ⟨⟨id, getElem?_concat_iff.mpr (.inr ⟨rfl, rfl⟩)⟩, inCell, ?_⟩
  intro other otherTime otherId otherRead otherCell
  rcases getElem?_concat_iff.mp otherRead with earlier | ⟨last, same⟩
  · rcases lt_or_eq_of_le (newest other otherTime otherId earlier otherCell) with less | equal
    · exact .inl less
    · have inRange : other < snapshots.length := (List.getElem?_eq_some_iff.mp earlier).1
      exact .inr ⟨Int64.toInt_inj.mp equal, Nat.le_of_lt inRange⟩
  · cases same
    exact .inr ⟨rfl, Nat.le_of_eq last⟩

/-- The map stays right over an entry that does not take its cell: it has no
cell, or a newer entry holds the cell. -/
theorem BestOf.unchanged {snapshots : List (Int64 × Id)} {best : Best}
    (meaning : BestOf policy nowMs snapshots best) {newTime : Int64} {id : Id}
    (older : ∀ key, cellKey policy nowMs newTime = some key →
      ∃ bestTime holder, best[key]? = some (bestTime, holder) ∧ newTime < bestTime) :
    BestOf policy nowMs (snapshots ++ [(newTime, id)]) best := by
  refine ⟨fun key timeMs position found => ?_,
    fun position timeMs entryId key read inCell => ?_⟩
  · by_cases inCell : cellKey policy nowMs newTime = some key
    · rcases older key inCell with ⟨bestTime, holder, held, isOlder⟩
      rw [held] at found
      cases found
      exact survives_concat_older (meaning.sound key timeMs position held) isOlder
    · exact (survives_concat_other inCell).mpr (meaning.sound key timeMs position found)
  · rcases getElem?_concat_iff.mp read with earlier | ⟨_, same⟩
    · exact meaning.covered position timeMs entryId key earlier inCell
    · cases same
      rcases older key inCell with ⟨bestTime, holder, held, _⟩
      exact ⟨bestTime, holder, held⟩

/-- The map stays right when an entry takes its cell from an entry that is
not newer. -/
theorem BestOf.replaced {snapshots : List (Int64 × Id)} {best : Best}
    (meaning : BestOf policy nowMs snapshots best) {newTime : Int64} {id : Id}
    {newKey : Nat × Int64} (newCell : cellKey policy nowMs newTime = some newKey)
    (notOlder : ∀ bestTime holder, best[newKey]? = some (bestTime, holder) →
      ¬ newTime < bestTime) :
    BestOf policy nowMs (snapshots ++ [(newTime, id)])
      (best.insert newKey (newTime, snapshots.length)) := by
  refine ⟨fun key timeMs position found => ?_,
    fun position timeMs entryId key read inCell => ?_⟩
  · rw [OrderedTable.getElem?_insert_eq] at found
    by_cases same : newKey = key
    · subst same
      rw [if_pos rfl] at found
      cases found
      refine survives_concat_newer newCell ?_
      intro other otherTime otherId otherRead otherCell
      rcases meaning.covered other otherTime otherId newKey otherRead otherCell with
        ⟨bestTime, holder, held⟩
      have holderNotNewer := notOlder bestTime holder held
      rw [Int64.lt_iff_toInt_lt] at holderNotNewer
      rcases (meaning.sound newKey bestTime holder held).newest other otherTime otherId
          otherRead otherCell with less | ⟨equal, _⟩
      · omega
      · rw [equal]
        omega
    · rw [if_neg same] at found
      exact (survives_concat_other (by simp [newCell, same])).mpr
        (meaning.sound key timeMs position found)
  · rw [OrderedTable.getElem?_insert_eq]
    by_cases same : newKey = key
    · rw [if_pos same]
      exact ⟨newTime, snapshots.length, rfl⟩
    · rw [if_neg same]
      rcases getElem?_concat_iff.mp read with earlier | ⟨_, last⟩
      · exact meaning.covered position timeMs entryId key earlier inCell
      · cases last
        rw [newCell] at inCell
        exact absurd (Option.some.inj inCell) same

/-- One iteration keeps the meaning of the map. -/
theorem BestOf.offer {snapshots : List (Int64 × Id)} {best : Best}
    (meaning : BestOf policy nowMs snapshots best) (newTime : Int64) (id : Id) :
    BestOf policy nowMs (snapshots ++ [(newTime, id)])
      (offer policy nowMs best newTime snapshots.length) := by
  unfold Retention.offer
  cases newCell : cellKey policy nowMs newTime with
  | none => exact meaning.unchanged (by simp [newCell])
  | some newKey =>
      simp only
      cases held : best[newKey]? with
      | none => exact meaning.replaced newCell (by simp [held])
      | some entry =>
          rcases entry with ⟨bestTime, holder⟩
          simp only
          split
          next older =>
            refine meaning.unchanged fun key inCell => ?_
            rw [newCell] at inCell
            cases inCell
            exact ⟨bestTime, holder, held, older⟩
          next notOlder => exact meaning.replaced newCell (by simpa [held] using notOlder)

/-- The loop keeps the meaning of the map over any number of iterations. -/
theorem BestOf.survivorLoop {before : List (Int64 × Id)} {best : Best}
    (meaning : BestOf policy nowMs before best) (rest : List (Int64 × Id)) :
    BestOf policy nowMs (before ++ rest)
      (survivorLoop policy nowMs best before.length rest) := by
  induction rest generalizing before best with
  | nil => simpa [Retention.survivorLoop] using meaning
  | cons entry rest inductionHypothesis =>
      rcases entry with ⟨timeMs, id⟩
      have next := inductionHypothesis (meaning.offer timeMs id)
      simpa [Retention.survivorLoop] using next

theorem bestOf_survivorLoop (snapshots : List (Int64 × Id)) :
    BestOf policy nowMs snapshots (survivorLoop policy nowMs ∅ 0 snapshots) := by
  have initial : BestOf policy nowMs ([] : List (Int64 × Id)) ∅ :=
    ⟨by simp, by simp⟩
  exact initial.survivorLoop snapshots

/-- The input positions the map refers to are the survivors. -/
theorem BestOf.mem_positions_iff {snapshots : List (Int64 × Id)} {best : Best}
    (meaning : BestOf policy nowMs snapshots best) {position : Nat} :
    position ∈ best.toList.map (·.2.2) ↔
      ∃ key timeMs, Survives policy nowMs snapshots key timeMs position := by
  constructor
  · intro membership
    rcases List.mem_map.mp membership with ⟨⟨key, timeMs, holder⟩, held, rfl⟩
    exact ⟨key, timeMs, meaning.sound key timeMs holder (ExtTreeMap.mem_toList_iff_getElem?_eq_some.mp held)⟩
  · rintro ⟨key, timeMs, survives⟩
    rcases survives.entry with ⟨id, read⟩
    rcases meaning.covered position timeMs id key read survives.inCell with
      ⟨holderTime, holder, held⟩
    rcases (meaning.sound key holderTime holder held).unique survives with ⟨rfl, rfl⟩
    exact List.mem_map.mpr
      ⟨(key, holderTime, holder), ExtTreeMap.mem_toList_iff_getElem?_eq_some.mpr held, rfl⟩

end Survivors

section Specification

variable {Id : Type} {policy : RetentionPolicy} {nowMs : Int64}

theorem firstTier_eq_some {age : Duration} {tiers : List Tier} {start index : Nat} {tier : Tier}
    (found : RetentionPolicy.firstTier age start tiers = some (index, tier)) :
    start ≤ index ∧ tiers[index - start]? = some tier := by
  induction tiers generalizing start with
  | nil => simp [RetentionPolicy.firstTier] at found
  | cons head rest inductionHypothesis =>
      simp only [RetentionPolicy.firstTier] at found
      split at found
      next younger =>
        cases found
        simp
      next elder =>
        rcases inductionHypothesis found with ⟨later, read⟩
        have shifted : index - start = index - (start + 1) + 1 := by omega
        refine ⟨by omega, ?_⟩
        rw [shifted, List.getElem?_cons_succ]
        exact read

/-- The tier index selected for an age names the tier selected with it. -/
theorem tierFor_eq_some {age : Duration} {index : Nat} {tier : Tier}
    (selected : policy.tierFor age = some (index, tier)) :
    policy.tiers[index]? = some tier := by
  unfold RetentionPolicy.tierFor at selected
  cases found : RetentionPolicy.firstTier age 0 policy.tiers with
  | some pair =>
      simp only [found] at selected
      cases selected
      simpa using (firstTier_eq_some found).2
  | none =>
      simp only [found, Option.map_eq_some_iff] at selected
      rcases selected with ⟨last, isLast, same⟩
      cases same
      rw [← List.getLast?_eq_getElem?]
      exact isLast

/-- A policy with a tier selects one for every age. -/
theorem exists_tierFor (nonempty : policy.tiers ≠ []) (age : Duration) :
    ∃ index tier, policy.tierFor age = some (index, tier) := by
  unfold RetentionPolicy.tierFor
  cases RetentionPolicy.firstTier age 0 policy.tiers with
  | some pair => exact ⟨pair.1, pair.2, rfl⟩
  | none =>
      refine ⟨policy.tiers.length - 1, policy.tiers.getLast nonempty, ?_⟩
      simp [List.getLast?_eq_some_getLast nonempty]

/-- What a cell key says: the tier and the cell of that tier's width. -/
theorem cellKey_eq_some {timeMs : Int64} {index : Nat} {cell : Int64}
    (inCell : cellKey policy nowMs timeMs = some (index, cell)) :
    ∃ tier, policy.tiers[index]? = some tier ∧
      cell = Saturating.divEuclid timeMs tier.cellMs := by
  unfold cellKey at inCell
  rcases Option.map_eq_some_iff.mp inCell with ⟨⟨_, tier⟩, selected, same⟩
  cases same
  exact ⟨tier, tierFor_eq_some selected, rfl⟩

/-- Every dropped entry gives way to a survivor of the same cell that is
newer, or of the same time and later in the input. -/
theorem exists_survivor_of_mem_drop {snapshots : List (Int64 × Id)} {id : Id}
    (dropped : id ∈ (plan nowMs snapshots policy).drop) :
    ∃ position timeMs key holder holderTime,
      snapshots[position]? = some (timeMs, id) ∧ cellKey policy nowMs timeMs = some key ∧
      Survives policy nowMs snapshots key holderTime holder ∧
      (timeMs.toInt < holderTime.toInt ∨ timeMs = holderTime ∧ position < holder) := by
  unfold plan at dropped
  split at dropped
  next empty => simp at dropped
  next nonempty =>
    simp only [List.mem_map, List.mem_filter, decide_eq_true_eq] at dropped
    rcases dropped with ⟨⟨⟨timeMs, _⟩, position⟩, ⟨read, isDropped⟩, rfl⟩
    have read : snapshots[position]? = some (timeMs, _) := List.mem_zipIdx_iff_getElem?.mp read
    have meaning : BestOf policy nowMs snapshots _ := bestOf_survivorLoop snapshots
    have hasTier : policy.tiers ≠ [] := by simpa using nonempty
    rcases exists_tierFor hasTier (ageOf nowMs timeMs) with ⟨index, tier, selected⟩
    have inCell : cellKey policy nowMs timeMs =
        some (index, Saturating.divEuclid timeMs tier.cellMs) := by
      simp [cellKey, selected]
    rcases meaning.covered position timeMs _ _ read inCell with ⟨holderTime, holder, held⟩
    have survives := meaning.sound _ _ _ held
    refine ⟨position, timeMs, _, holder, holderTime, read, inCell, survives, ?_⟩
    rcases survives.newest position timeMs _ read inCell with less | ⟨equal, notLater⟩
    · exact .inl less
    · refine .inr ⟨equal, Nat.lt_of_le_of_ne notLater ?_⟩
      rintro rfl
      exact isDropped (List.mem_map.mp (meaning.mem_positions_iff.mpr ⟨_, _, survives⟩))

/-- Every cell of a later tier is a union of cells of each earlier tier. -/
def RetentionPolicy.Nested (policy : RetentionPolicy) : Prop :=
  ∀ (finer coarser : Nat) (finerTier coarserTier : Tier), finer ≤ coarser →
    policy.tiers[finer]? = some finerTier → policy.tiers[coarser]? = some coarserTier →
      finerTier.cellMs.toInt ∣ coarserTier.cellMs.toInt

theorem defaultGrid_nested : RetentionPolicy.defaultGrid.Nested := by
  have chain : RetentionPolicy.defaultGrid.tiers.Pairwise fun finer coarser =>
      finer.cellMs.toInt ∣ coarser.cellMs.toInt := by decide
  intro finer coarser finerTier coarserTier ordered finerRead coarserRead
  rcases List.getElem?_eq_some_iff.mp finerRead with ⟨finerIn, rfl⟩
  rcases List.getElem?_eq_some_iff.mp coarserRead with ⟨coarserIn, rfl⟩
  rcases Nat.lt_or_eq_of_le ordered with less | equal
  · exact List.pairwise_iff_getElem.mp chain finer coarser finerIn coarserIn less
  · subst equal
    exact dvd_refl _

theorem cellMs_pos (tier : Tier) : 0 < tier.cellMs.toInt := by
  rw [Tier.cellMs, Saturating.toInt_max]
  have one : (1 : Int64).toInt = 1 := rfl
  omega

/-- Entries in one cell of a tier share the cell of every coarser tier. -/
theorem same_coarser_cell (nested : policy.Nested) {firstTime secondTime : Int64}
    {key : Nat × Int64} (firstCell : cellKey policy nowMs firstTime = some key)
    (secondCell : cellKey policy nowMs secondTime = some key) {coarser : Nat} {tier : Tier}
    (coarse : policy.tiers[coarser]? = some tier) (ordered : key.1 ≤ coarser) :
    Saturating.divEuclid firstTime tier.cellMs = Saturating.divEuclid secondTime tier.cellMs := by
  rcases key with ⟨index, cell⟩
  rcases cellKey_eq_some firstCell with ⟨finerTier, finerRead, firstIs⟩
  rcases cellKey_eq_some secondCell with ⟨_, sameRead, secondIs⟩
  rw [finerRead] at sameRead
  cases sameRead
  rcases nested index coarser finerTier tier ordered finerRead coarse with ⟨factor, multiple⟩
  have finerPos := cellMs_pos finerTier
  have sameFine : firstTime.toInt / finerTier.cellMs.toInt =
      secondTime.toInt / finerTier.cellMs.toInt := by
    rw [← Saturating.toInt_divEuclid finerPos, ← Saturating.toInt_divEuclid finerPos,
      ← firstIs, ← secondIs]
  apply Int64.toInt_inj.mp
  rw [Saturating.toInt_divEuclid (cellMs_pos tier), Saturating.toInt_divEuclid (cellMs_pos tier),
    multiple, ← Int.ediv_ediv_of_nonneg (Int.le_of_lt finerPos),
    ← Int.ediv_ediv_of_nonneg (Int.le_of_lt finerPos), sameFine]

end Specification

end Busyncr.Retention
