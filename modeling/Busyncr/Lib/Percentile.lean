import Mathlib.Order.Bounds.Basic
import Mathlib.Tactic.Common

/-!
Nearest-rank percentiles of a list.

The percentile is a value of the list: the least one that enough of the values
do not exceed.  On a sorted list it stands at the rank of the percentage,
rounded up.
-/

namespace Percentile

universe u

variable {Value : Type u} [LE Value] [DecidableLE Value]

/-- The number of values that do not exceed the given one. -/
def countUpTo (values : List Value) (value : Value) : Nat := values.countP (· ≤ value)

/-- The values that at least the given percentage of the list does not exceed. -/
def Reaching (percent : Nat) (values : List Value) : Set Value :=
  {value | percent * values.length ≤ 100 * countUpTo values value}

/-- The least value that reaches the percentage, and one of the list. -/
structure IsPercentile (percent : Nat) (values : List Value) (value : Value) : Prop where
  mem : value ∈ values
  least : IsLeast (Reaching percent values) value

/-- The rank of the percentage among so many values, rounded up. -/
def rank (percent count : Nat) : Nat := (count * percent + 99) / 100

theorem rank_le {percent : Nat} (most : percent ≤ 100) (count : Nat) :
    rank percent count ≤ count := by
  have product : count * percent ≤ count * 100 := Nat.mul_le_mul_left count most
  unfold rank
  omega

theorem rank_pos {percent count : Nat} (positive : 0 < percent) (nonempty : 0 < count) :
    0 < rank percent count := by
  have product : 0 < count * percent := Nat.mul_pos nonempty positive
  unfold rank
  omega

theorem rank_le_iff {percent count reached : Nat} :
    rank percent count ≤ reached ↔ percent * count ≤ 100 * reached := by
  rw [Nat.mul_comm percent]
  unfold rank
  omega

theorem countUpTo_perm {values others : List Value} (permuted : values.Perm others)
    (value : Value) : countUpTo values value = countUpTo others value :=
  permuted.countP_eq _

theorem IsPercentile.perm {percent : Nat} {values others : List Value} {value : Value}
    (percentile : IsPercentile percent values value) (permuted : values.Perm others) :
    IsPercentile percent others value := by
  refine ⟨permuted.mem_iff.mp percentile.mem, ?_⟩
  have same : Reaching percent values = Reaching percent others := by
    ext other
    simp only [Reaching, Set.mem_ofPred_eq, countUpTo_perm permuted, permuted.length_eq]
  rw [← same]
  exact percentile.least

section Sorted

variable [Std.IsLinearOrder Value] {values : List Value}

/-- In a sorted list all values up to a position are counted at that position. -/
theorem lt_countUpTo_getElem (sorted : values.Pairwise (· ≤ ·)) {position : Nat}
    (bound : position < values.length) : position < countUpTo values values[position] := by
  have small : ∀ value ∈ values.take (position + 1), decide (value ≤ values[position]) = true := by
    intro value taken
    obtain ⟨index, early, rfl⟩ := List.mem_iff_getElem.mp taken
    rw [List.length_take] at early
    rw [List.getElem_take, decide_eq_true_eq]
    obtain before | same := Nat.lt_or_eq_of_le (Nat.le_of_lt_succ (lt_of_lt_of_le early
      (Nat.min_le_left _ _)))
    · exact List.pairwise_iff_getElem.mp sorted _ _ _ _ before
    · subst same
      exact Std.le_refl _
  have counted : position + 1 = (values.take (position + 1)).countP (· ≤ values[position]) := by
    rw [List.countP_eq_length.mpr small, List.length_take]
    omega
  have total : (values.take (position + 1)).countP (· ≤ values[position]) ≤
      countUpTo values values[position] :=
    (List.take_sublist _ _).countP_le
  omega

/-- In a sorted list a smaller value is counted only before the position. -/
theorem countUpTo_le_of_not_le (sorted : values.Pairwise (· ≤ ·)) {position : Nat}
    (bound : position < values.length) {value : Value} (below : ¬ values[position] ≤ value) :
    countUpTo values value ≤ position := by
  have large : (values.drop position).countP (· ≤ value) = 0 := by
    rw [List.countP_eq_zero]
    intro other dropped
    obtain ⟨index, late, rfl⟩ := List.mem_iff_getElem.mp dropped
    rw [List.length_drop] at late
    rw [List.getElem_drop, decide_eq_true_eq]
    intro counted
    apply below
    cases index with
    | zero => simpa using counted
    | succ index =>
        exact Std.le_trans (List.pairwise_iff_getElem.mp sorted _ _ _ _ (by omega)) counted
  have split : countUpTo values value = (values.take position).countP (· ≤ value) +
      (values.drop position).countP (· ≤ value) := by
    rw [← List.countP_append, List.take_append_drop, countUpTo]
  have taken : (values.take position).countP (· ≤ value) ≤ (values.take position).length :=
    List.countP_le_length
  rw [List.length_take] at taken
  omega

/-- The value at the rank is the percentile. -/
theorem isPercentile_getElem (sorted : values.Pairwise (· ≤ ·)) {percent position : Nat}
    (ranked : position + 1 = rank percent values.length) (bound : position < values.length) :
    IsPercentile percent values values[position] := by
  refine ⟨List.getElem_mem bound, ?_, ?_⟩
  · have reached := lt_countUpTo_getElem sorted bound
    exact rank_le_iff.mp (by omega)
  · intro value reaching
    by_contra below
    have few := countUpTo_le_of_not_le sorted bound below
    have enough := rank_le_iff.mpr reaching
    omega

end Sorted

end Percentile
