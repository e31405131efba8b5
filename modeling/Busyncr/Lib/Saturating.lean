import Mathlib.Order.MinMax
import Mathlib.Tactic.Linarith

/-!
Saturating, rounding and wrapping arithmetic on 64-bit integers, and
non-negative time spans with nanosecond resolution.

Every operation comes with the lemma that says what it computes on the
unbounded integers, so that proofs continue by linear arithmetic.
-/

namespace Saturating

/-- Unsigned addition that stops at the greatest 64-bit value. -/
def add (left right : UInt64) : UInt64 :=
  UInt64.ofNat (min (left.toNat + right.toNat) (2 ^ 64 - 1))

/-- Unsigned subtraction that stops at zero. -/
def sub (left right : UInt64) : UInt64 :=
  UInt64.ofNat (left.toNat - right.toNat)

/-- Unsigned multiplication that stops at the greatest 64-bit value. -/
def mul (left right : UInt64) : UInt64 :=
  UInt64.ofNat (min (left.toNat * right.toNat) (2 ^ 64 - 1))

/-- Unsigned division rounding up. -/
def divCeil (left right : UInt64) : UInt64 :=
  if 0 < left % right ∧ 0 < right then left / right + 1 else left / right

/-- Signed subtraction that stops at either end of the 64-bit range. -/
def signedSub (left right : Int64) : Int64 :=
  Int64.ofIntClamp (left.toInt - right.toInt)

/-- Signed division rounding towards negative infinity for a positive
divisor. -/
def divEuclid (left right : Int64) : Int64 :=
  Int64.ofInt (left.toInt / right.toInt)

@[simp]
theorem toNat_add (left right : UInt64) :
    (add left right).toNat = min (left.toNat + right.toNat) (2 ^ 64 - 1) := by
  rw [add, UInt64.toNat_ofNat', Nat.mod_eq_of_lt]
  omega

@[simp]
theorem toNat_sub (left right : UInt64) :
    (sub left right).toNat = left.toNat - right.toNat := by
  have bound := left.toNat_lt
  rw [sub, UInt64.toNat_ofNat', Nat.mod_eq_of_lt]
  omega

@[simp]
theorem toNat_mul (left right : UInt64) :
    (mul left right).toNat = min (left.toNat * right.toNat) (2 ^ 64 - 1) := by
  rw [mul, UInt64.toNat_ofNat', Nat.mod_eq_of_lt]
  omega

theorem toNat_min (left right : UInt64) : (min left right).toNat = min left.toNat right.toNat := by
  rw [show min left right = if left ≤ right then left else right from rfl]
  split
  next less =>
    have bound := UInt64.le_iff_toNat_le.mp less
    omega
  next more =>
    have bound := UInt64.lt_iff_toNat_lt.mp (UInt64.not_le.mp more)
    omega

theorem toNat_max (left right : UInt64) : (max left right).toNat = max left.toNat right.toNat := by
  rw [show max left right = if left ≤ right then right else left from rfl]
  split
  next less =>
    have bound := UInt64.le_iff_toNat_le.mp less
    omega
  next more =>
    have bound := UInt64.lt_iff_toNat_lt.mp (UInt64.not_le.mp more)
    omega

theorem toNat_divCeil {left right : UInt64} (large : 1 < right.toNat) :
    (divCeil left right).toNat = (left.toNat + (right.toNat - 1)) / right.toNat := by
  have bound := left.toNat_lt
  have quotient : left.toNat / right.toNat ≤ left.toNat / 2 :=
    Nat.div_le_div_left large (by omega)
  have parts := Nat.div_add_mod left.toNat right.toNat
  have positive : 0 < right.toNat := by omega
  have small := Nat.mod_lt left.toNat positive
  unfold divCeil
  simp only [UInt64.lt_iff_toNat_lt, UInt64.toNat_mod, UInt64.toNat_zero, positive, and_true]
  split
  next inexact =>
    rw [UInt64.toNat_add, UInt64.toNat_div, Nat.mod_eq_of_lt (by simp; omega)]
    symm
    rw [Nat.div_eq_iff positive]
    simp only [UInt64.toNat_one, Nat.mul_comm _ right.toNat, Nat.mul_add, Nat.mul_one]
    omega
  next even =>
    rw [UInt64.toNat_div]
    symm
    rw [Nat.div_eq_iff positive]
    simp only [Nat.mul_comm _ right.toNat]
    omega

/-- Addition from left to right, wrapping at `2 ^ 64`. -/
theorem foldl_add_eq {Item : Type} (size : Item → UInt64) (items : List Item) (total : UInt64) :
    items.foldl (fun total item => total + size item) total =
      total + UInt64.ofNat ((items.map fun item => (size item).toNat).sum) := by
  induction items generalizing total with
  | nil => simp
  | cons item rest inductionHypothesis => simp [inductionHypothesis, UInt64.add_assoc]

theorem toInt_ofIntClamp (value : Int) :
    (Int64.ofIntClamp value).toInt = max (-2 ^ 63) (min value (2 ^ 63 - 1)) := by
  have least : Int64.minValue.toInt = -2 ^ 63 := rfl
  have greatest : Int64.maxValue.toInt = 2 ^ 63 - 1 := rfl
  unfold Int64.ofIntClamp
  split
  next low =>
    split
    next high =>
      rw [Int64.toInt_ofIntLE]
      omega
    next high => omega
  next low => omega

theorem toInt_signedSub (left right : Int64) :
    (signedSub left right).toInt =
      max (-2 ^ 63) (min (left.toInt - right.toInt) (2 ^ 63 - 1)) :=
  toInt_ofIntClamp _

/-- A saturated difference reaches a bound of the 64-bit range exactly when
the true difference does. -/
theorem le_toInt_signedSub_iff {left right : Int64} {bound : Int}
    (representable : bound ≤ 2 ^ 63 - 1) (nonneg : 0 ≤ bound) :
    bound ≤ (signedSub left right).toInt ↔ bound ≤ left.toInt - right.toInt := by
  rw [toInt_signedSub]
  omega

theorem toInt_max (left right : Int64) :
    (max left right).toInt = max left.toInt right.toInt := by
  have unfolded : max left right = if left ≤ right then right else left := rfl
  rw [unfolded]
  split
  next ordered =>
    rw [Int64.le_iff_toInt_le] at ordered
    omega
  next unordered =>
    rw [Int64.le_iff_toInt_le] at unordered
    omega

theorem toInt_divEuclid {left right : Int64} (positive : 0 < right.toInt) :
    (divEuclid left right).toInt = left.toInt / right.toInt := by
  have lower := left.le_toInt
  have upper := left.toInt_lt
  have divLower : -2 ^ 63 ≤ left.toInt / right.toInt := by
    rw [Int.le_ediv_iff_mul_le positive]
    nlinarith
  have divUpper : left.toInt / right.toInt < 2 ^ 63 := by
    rw [Int.ediv_lt_iff_lt_mul positive]
    nlinarith
  exact Int64.toInt_ofInt_of_le divLower divUpper

end Saturating

/-- A span of time: whole seconds below `2 ^ 64` and a part of a second. -/
structure Duration where
  secs : Nat
  subsecNanos : Nat
  secs_lt : secs < 2 ^ 64
  subsecNanos_lt : subsecNanos < 10 ^ 9
deriving DecidableEq

namespace Duration

/-- The longest span. -/
def max : Duration := ⟨2 ^ 64 - 1, 10 ^ 9 - 1, by norm_num, by norm_num⟩

def fromSecs (secs : UInt64) : Duration := ⟨secs.toNat, 0, secs.toNat_lt, by norm_num⟩

def fromMillis (millis : UInt64) : Duration :=
  ⟨millis.toNat / 1000, millis.toNat % 1000 * 10 ^ 6,
    lt_of_le_of_lt (Nat.div_le_self _ _) millis.toNat_lt, by omega⟩

/-- The span in nanoseconds, without rounding. -/
def asNanos (span : Duration) : Nat := span.secs * 10 ^ 9 + span.subsecNanos

/-- Whole milliseconds, a part of a millisecond being cut off. -/
def asMillis (span : Duration) : Nat := span.secs * 1000 + span.subsecNanos / 10 ^ 6

instance : LT Duration := ⟨fun left right => left.asNanos < right.asNanos⟩

instance (left right : Duration) : Decidable (left < right) :=
  inferInstanceAs (Decidable (left.asNanos < right.asNanos))

@[simp]
theorem asNanos_fromMillis (millis : UInt64) :
    (fromMillis millis).asNanos = millis.toNat * 10 ^ 6 := by
  simp only [asNanos, fromMillis]
  omega

end Duration
