import Mathlib.Order.Monotone.Basic
import Mathlib.Tactic.IntervalCases
import Mathlib.Tactic.Ring
import Mathlib.Tactic.Linarith

/-!
The Gregorian calendar by its own rules: years of 365 or 366 days counted one
by one from 1970, months inside a year, and the day after a date.

`dayNumber` is injective on the dates there are, so a date is known by its
number of days since 1970-01-01.
-/

namespace Gregorian

structure Date where
  year : Int
  month : Nat
  day : Nat
deriving DecidableEq

def isLeap (year : Int) : Bool := year % 4 = 0 && (year % 100 ≠ 0 || year % 400 = 0)

def yearLength (year : Int) : Nat := if isLeap year then 366 else 365

def monthLength (year : Int) : Nat → Nat
  | 2 => if isLeap year then 29 else 28
  | 4 | 6 | 9 | 11 => 30
  | _ => 31

/-- The days of the first years from 1970 on. -/
def daysForward : Nat → Nat
  | 0 => 0
  | count + 1 => daysForward count + yearLength (1970 + count)

/-- The days of the last years before 1970. -/
def daysBackward : Nat → Nat
  | 0 => 0
  | count + 1 => daysBackward count + yearLength (1970 - (count + 1))

/-- Days from 1970-01-01 to the first day of a year. -/
def daysToYear (year : Int) : Int :=
  if 1970 ≤ year then daysForward (year - 1970).toNat
  else -(daysBackward (1970 - year).toNat : Int)

/-- Days of a year before the first day of a month. -/
def daysToMonth (year : Int) : Nat → Nat
  | 0 => 0
  | 1 => 0
  | month + 2 => daysToMonth year (month + 1) + monthLength year (month + 1)

/-- Days since 1970-01-01. -/
def Date.dayNumber (date : Date) : Int :=
  daysToYear date.year + daysToMonth date.year date.month + (date.day - 1)

/-- A date the calendar has. -/
structure Date.Valid (date : Date) : Prop where
  monthLeast : 1 ≤ date.month
  monthMost : date.month ≤ 12
  dayLeast : 1 ≤ date.day
  dayMost : date.day ≤ monthLength date.year date.month

/-- The following day. -/
def Date.next (date : Date) : Date :=
  if date.day < monthLength date.year date.month then { date with day := date.day + 1 }
  else if date.month < 12 then ⟨date.year, date.month + 1, 1⟩
  else ⟨date.year + 1, 1, 1⟩

/-- Leap days in the years up to and including one. -/
def leapDays (year : Int) : Int := year / 4 - year / 100 + year / 400

theorem yearLength_eq (year : Int) :
    (yearLength year : Int) = 365 + leapDays year - leapDays (year - 1) := by
  simp only [yearLength, isLeap, leapDays, Bool.and_eq_true, Bool.or_eq_true, decide_eq_true_eq]
  split <;> omega

theorem daysForward_eq (count : Nat) :
    (daysForward count : Int) = 365 * count + leapDays (1969 + count) - leapDays 1969 := by
  induction count with
  | zero => simp [daysForward]
  | succ count inductionHypothesis =>
      have length := yearLength_eq (1970 + count)
      have before : (1970 + count - 1 : Int) = 1969 + count := by ring
      have after : (1969 + (count + 1 : Nat) : Int) = 1970 + count := by
        push_cast
        ring
      rw [before] at length
      rw [daysForward, after]
      push_cast
      linarith

theorem daysBackward_eq (count : Nat) :
    (daysBackward count : Int) = 365 * count + leapDays 1969 - leapDays (1969 - count) := by
  induction count with
  | zero => simp [daysBackward]
  | succ count inductionHypothesis =>
      have length := yearLength_eq (1970 - (count + 1))
      have here : (1970 - (count + 1) : Int) = 1969 - count := by ring
      have before : (1969 - (count + 1 : Nat) : Int) = 1969 - count - 1 := by
        push_cast
        ring
      rw [here] at length
      rw [daysBackward, before, here]
      push_cast
      linarith

/-- Counting the years one by one has a closed form. -/
theorem daysToYear_eq (year : Int) :
    daysToYear year = 365 * (year - 1970) + leapDays (year - 1) - leapDays 1969 := by
  unfold daysToYear
  split
  next after =>
    have count : ((year - 1970).toNat : Int) = year - 1970 := by omega
    have same : (1969 + (year - 1970) : Int) = year - 1 := by ring
    rw [daysForward_eq, count, same]
  next before =>
    have count : ((1970 - year).toNat : Int) = 1970 - year := by omega
    have same : (1969 - (1970 - year) : Int) = year - 1 := by ring
    rw [daysBackward_eq, count, same]
    ring

theorem daysToYear_succ (year : Int) :
    daysToYear (year + 1) = daysToYear year + yearLength year := by
  have same : (year + 1 - 1 : Int) = year := by ring
  rw [daysToYear_eq, daysToYear_eq, yearLength_eq, same]
  ring

theorem daysToYear_mono {early late : Int} (ordered : early ≤ late) :
    daysToYear early ≤ daysToYear late := by
  rw [daysToYear_eq, daysToYear_eq]
  unfold leapDays
  omega

theorem daysToMonth_succ (year : Int) {month : Nat} (positive : 1 ≤ month) :
    daysToMonth year (month + 1) = daysToMonth year month + monthLength year month := by
  obtain ⟨earlier, rfl⟩ : ∃ earlier, month = earlier + 1 := ⟨month - 1, by omega⟩
  rfl

theorem daysToMonth_mono (year : Int) : Monotone (daysToMonth year) := by
  apply monotone_nat_of_le_succ
  intro month
  cases month with
  | zero => exact Nat.le_refl 0
  | succ month => exact Nat.le_add_right _ _

theorem daysToMonth_end (year : Int) : daysToMonth year 13 = yearLength year := by
  simp only [daysToMonth, monthLength, yearLength]
  split <;> rfl

namespace Date

/-- A date lies inside its month. -/
theorem Valid.before_next_month {date : Date} (valid : date.Valid) :
    daysToMonth date.year date.month + date.day ≤ daysToMonth date.year (date.month + 1) := by
  rw [daysToMonth_succ date.year valid.monthLeast]
  exact Nat.add_le_add_left valid.dayMost _

/-- A date lies inside its year. -/
theorem Valid.dayNumber_lt {date : Date} (valid : date.Valid) :
    daysToYear date.year ≤ date.dayNumber ∧ date.dayNumber < daysToYear (date.year + 1) := by
  have inMonth := valid.before_next_month
  have inYear : daysToMonth date.year (date.month + 1) ≤ daysToMonth date.year 13 :=
    daysToMonth_mono date.year (by have := valid.monthMost; omega)
  have positive := valid.dayLeast
  rw [daysToMonth_end] at inYear
  rw [daysToYear_succ, dayNumber]
  omega

theorem year_le_of_dayNumber {left right : Date} (leftValid : left.Valid)
    (rightValid : right.Valid) (same : left.dayNumber = right.dayNumber) :
    left.year ≤ right.year := by
  by_contra later
  have leftRange := leftValid.dayNumber_lt
  have rightRange := rightValid.dayNumber_lt
  have ordered : daysToYear (right.year + 1) ≤ daysToYear left.year :=
    daysToYear_mono (by omega)
  omega

theorem month_le_of_dayNumber {left right : Date} (leftValid : left.Valid)
    (rightValid : right.Valid) (year : left.year = right.year)
    (same : left.dayNumber = right.dayNumber) : left.month ≤ right.month := by
  by_contra later
  have inMonth := rightValid.before_next_month
  have positive := leftValid.dayLeast
  have ordered : daysToMonth left.year (right.month + 1) ≤ daysToMonth left.year left.month :=
    daysToMonth_mono left.year (by omega)
  rw [year] at ordered
  simp only [dayNumber, year] at same
  omega

/-- A date is known by its day number. -/
theorem eq_of_dayNumber {left right : Date} (leftValid : left.Valid) (rightValid : right.Valid)
    (same : left.dayNumber = right.dayNumber) : left = right := by
  have year : left.year = right.year :=
    le_antisymm (year_le_of_dayNumber leftValid rightValid same)
      (year_le_of_dayNumber rightValid leftValid same.symm)
  have month : left.month = right.month :=
    le_antisymm (month_le_of_dayNumber leftValid rightValid year same)
      (month_le_of_dayNumber rightValid leftValid year.symm same.symm)
  have day : left.day = right.day := by
    have leftPositive := leftValid.dayLeast
    have rightPositive := rightValid.dayLeast
    simp only [dayNumber, year, month] at same
    omega
  cases left
  cases right
  simp_all

theorem one_le_monthLength (year : Int) (month : Nat) : 1 ≤ monthLength year month := by
  unfold monthLength
  split
  next => split <;> decide
  all_goals decide

theorem Valid.next {date : Date} (valid : date.Valid) : date.next.Valid := by
  unfold Date.next
  split
  next within => exact ⟨valid.monthLeast, valid.monthMost, by simp, within⟩
  next =>
    split
    next early => exact ⟨by simp, early, Nat.le_refl 1, one_le_monthLength _ _⟩
    next => exact ⟨Nat.le_refl 1, by simp, Nat.le_refl 1, one_le_monthLength _ _⟩

/-- The following day has the following number. -/
theorem Valid.dayNumber_next {date : Date} (valid : date.Valid) :
    date.next.dayNumber = date.dayNumber + 1 := by
  have dayMost := valid.dayMost
  have monthMost := valid.monthMost
  have monthEnd := daysToMonth_succ date.year valid.monthLeast
  unfold Date.next
  split
  next => simp [dayNumber]; ring
  next atEnd =>
    split
    next =>
      simp only [dayNumber, monthEnd]
      push_cast
      omega
    next atYearEnd =>
      have december : date.month = 12 := by omega
      have first : daysToMonth (date.year + 1) 1 = 0 := rfl
      have yearEnd := daysToMonth_end date.year
      rw [december] at monthEnd atEnd dayMost
      rw [monthEnd] at yearEnd
      simp only [dayNumber, daysToYear_succ, december, first, ← yearEnd]
      push_cast
      omega

end Date

end Gregorian
