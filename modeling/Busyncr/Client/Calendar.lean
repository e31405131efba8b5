import Busyncr.Lib.Gregorian

/-!
`format_utc_ms` and `civil_from_days`: the date and the time of day of a
snapshot's timestamp.

The arithmetic is that of `i64`, checked at every operation: a value outside
the type, or a cast that would lose bits, makes the result `none`.  Years are
counted from March, so that the leap day comes last.
-/

namespace Busyncr.Client

open Gregorian

/-- A value of type `i64`, if it is one. -/
def i64 (value : Int) : Option Int :=
  if -2 ^ 63 ≤ value ∧ value < 2 ^ 63 then some value else none

/-- A cast to `u32` that loses nothing. -/
def asU32 (value : Int) : Option Nat :=
  if 0 ≤ value ∧ value < 2 ^ 32 then some value.toNat else none

/-- What is divided by the days of an era, so that the quotient is rounded
down. -/
def eraDividend (z : Int) : Option Int := if 0 ≤ z then some z else i64 (z - 146096)

/-- The era of 400 years and the day in it. -/
def splitEra (z : Int) : Option (Int × Int) := do
  let dividend ← eraDividend z
  let era := dividend.tdiv 146097
  let eraDays ← i64 (era * 146097)
  let doe ← i64 (z - eraDays)
  return (era, doe)

def yearOfEra (doe : Int) : Option Int := do
  let lessQuads ← i64 (doe - doe.tdiv 1460)
  let withCenturies ← i64 (lessQuads + doe.tdiv 36524)
  let lessEra ← i64 (withCenturies - doe.tdiv 146096)
  return lessEra.tdiv 365

/-- The day of the year, counted from the first of March. -/
def dayOfYear (doe yoe : Int) : Option Int := do
  let common ← i64 (365 * yoe)
  let withQuads ← i64 (common + yoe.tdiv 4)
  let elapsed ← i64 (withQuads - yoe.tdiv 100)
  i64 (doe - elapsed)

/-- The month and the day of the month. -/
def monthAndDay (doy : Int) : Option (Nat × Nat) := do
  let scaled ← i64 (5 * doy)
  let raised ← i64 (scaled + 2)
  let mp := raised.tdiv 153
  let monthScaled ← i64 (153 * mp)
  let monthRaised ← i64 (monthScaled + 2)
  let sinceMonth ← i64 (doy - monthRaised.tdiv 5)
  let dayWide ← i64 (sinceMonth + 1)
  let day ← asU32 dayWide
  let monthWide ← i64 (if mp < 10 then mp + 3 else mp - 9)
  let month ← asU32 monthWide
  return (month, day)

/-- Convert days since 1970-01-01 to a civil date. -/
def civilFromDays (days : Int) : Option Date := do
  let z ← i64 (days + 719468)
  let split ← splitEra z
  let yoe ← yearOfEra split.2
  let eraYears ← i64 (split.1 * 400)
  let year ← i64 (yoe + eraYears)
  let doy ← dayOfYear split.2 yoe
  let parts ← monthAndDay doy
  let civilYear ← i64 (year + if parts.1 ≤ 2 then 1 else 0)
  return ⟨civilYear, parts.1, parts.2⟩

/-- `{value:0width}`. -/
def zeroPadded (width : Nat) (value : Int) : String :=
  let digits := toString value.natAbs
  if value < 0 then "-" ++ ("".pushn '0' (width - 1 - digits.length) ++ digits)
  else "".pushn '0' (width - digits.length) ++ digits

structure TimeOfDay where
  hour : Nat
  minute : Nat
  second : Nat
deriving DecidableEq

def dayNumberOf (timestampMs : UInt64) : Nat := (timestampMs / 1000 / 86400).toNat

def timeOfDay (timestampMs : UInt64) : TimeOfDay :=
  let rem := timestampMs / 1000 % 86400
  ⟨(rem / 3600).toNat, (rem % 3600 / 60).toNat, (rem % 60).toNat⟩

/-- `YYYY-MM-DD HH:MM:SS UTC`. -/
def renderUtc (date : Date) (time : TimeOfDay) : String :=
  zeroPadded 4 date.year ++ "-" ++ zeroPadded 2 date.month ++ "-" ++ zeroPadded 2 date.day ++
    " " ++ zeroPadded 2 time.hour ++ ":" ++ zeroPadded 2 time.minute ++ ":" ++
    zeroPadded 2 time.second ++ " UTC"

/-- Format a timestamp for the listing of snapshots. -/
def formatUtcMs (timestampMs : UInt64) : Option String := do
  let days ← i64 (dayNumberOf timestampMs)
  let date ← civilFromDays days
  return renderUtc date (timeOfDay timestampMs)

theorem i64_of_fits {value : Int} (least : -2 ^ 63 ≤ value) (most : value < 2 ^ 63) :
    i64 value = some value :=
  if_pos ⟨least, most⟩

theorem asU32_of_fits {value : Int} (least : 0 ≤ value) (most : value < 2 ^ 32) :
    asU32 value = some value.toNat :=
  if_pos ⟨least, most⟩

/-- A day of an era by its century, its quad of years and the year in it. -/
structure EraDay (doe century quad year doy : Int) : Prop where
  split : doe = 36524 * century + 1461 * quad + 365 * year + doy
  centuryRange : 0 ≤ century ∧ century ≤ 3
  quadRange : 0 ≤ quad ∧ quad ≤ 24
  yearRange : 0 ≤ year ∧ year ≤ 3
  doyRange : 0 ≤ doy ∧ doy ≤ 365
  leap : doy = 365 → year = 3 ∧ (quad < 24 ∨ century = 3)

theorem exists_eraDay {doe : Int} (least : 0 ≤ doe) (most : doe < 146097) :
    ∃ century quad year doy, EraDay doe century quad year doy := by
  obtain ⟨century, centuryEq⟩ : ∃ century, century = min (doe / 36524) 3 := ⟨_, rfl⟩
  obtain ⟨quad, quadEq⟩ : ∃ quad, quad = (doe - 36524 * century) / 1461 := ⟨_, rfl⟩
  obtain ⟨year, yearEq⟩ : ∃ year, year = min ((doe - 36524 * century - 1461 * quad) / 365) 3 :=
    ⟨_, rfl⟩
  refine ⟨century, quad, year, doe - 36524 * century - 1461 * quad - 365 * year, ?_⟩
  constructor <;> omega

/-- The corrections for leap days leave whole years. -/
theorem EraDay.quotient {doe century quad year doy : Int}
    (day : EraDay doe century quad year doy) :
    (doe - doe / 1460 + doe / 36524 - doe / 146096) / 365 = 100 * century + 4 * quad + year := by
  obtain ⟨split, centuryRange, quadRange, yearRange, doyRange, leap⟩ := day
  have quads : doe / 1460 =
      25 * century + quad + (24 * century + quad + 365 * year + doy) / 1460 := by omega
  have late : (24 * century + quad + 365 * year + doy) / 1460 = 0 ∧ doy < 365 ∨
      (24 * century + quad + 365 * year + doy) / 1460 = 1 ∧ 0 < doy := by omega
  have last : doe / 36524 = century ∧ doe / 146096 = 0 ∨
      doe / 36524 = century + 1 ∧ doe / 146096 = 1 := by omega
  generalize (24 * century + quad + 365 * year + doy) / 1460 = carry at quads late
  generalize doe / 1460 = fours at quads ⊢
  generalize doe / 36524 = centuries at last ⊢
  generalize doe / 146096 = eras at last ⊢
  omega

theorem EraDay.range {doe century quad year doy : Int}
    (day : EraDay doe century quad year doy) : 0 ≤ doe ∧ doe < 146097 := by
  obtain ⟨split, centuryRange, quadRange, yearRange, doyRange, leap⟩ := day
  omega

theorem yearOfEra_eq {doe : Int} (least : 0 ≤ doe) (most : doe < 146097) :
    yearOfEra doe = some ((doe - doe / 1460 + doe / 36524 - doe / 146096) / 365) := by
  have whole : 0 ≤ doe - doe / 1460 + doe / 36524 - doe / 146096 := by omega
  have quads : i64 (doe - doe / 1460) = some (doe - doe / 1460) :=
    i64_of_fits (by omega) (by omega)
  have centuries : i64 (doe - doe / 1460 + doe / 36524) =
      some (doe - doe / 1460 + doe / 36524) :=
    i64_of_fits (by omega) (by omega)
  have eras : i64 (doe - doe / 1460 + doe / 36524 - doe / 146096) =
      some (doe - doe / 1460 + doe / 36524 - doe / 146096) :=
    i64_of_fits (by omega) (by omega)
  simp only [yearOfEra, Int.tdiv_eq_ediv_of_nonneg least, quads, centuries, eras,
    Option.bind_eq_bind, Option.bind_some, Int.tdiv_eq_ediv_of_nonneg whole]
  rfl

theorem EraDay.yearOfEra {doe century quad year doy : Int}
    (day : EraDay doe century quad year doy) :
    yearOfEra doe = some (100 * century + 4 * quad + year) := by
  rw [yearOfEra_eq day.range.1 day.range.2, day.quotient]

theorem EraDay.dayOfYear {doe century quad year doy : Int}
    (day : EraDay doe century quad year doy) :
    dayOfYear doe (100 * century + 4 * quad + year) = some doy := by
  obtain ⟨split, centuryRange, quadRange, yearRange, doyRange, leap⟩ := day
  have positive : 0 ≤ 100 * century + 4 * quad + year := by omega
  have fours : (100 * century + 4 * quad + year) / 4 = 25 * century + quad := by omega
  have hundreds : (100 * century + 4 * quad + year) / 100 = century := by omega
  have common : i64 (365 * (100 * century + 4 * quad + year)) =
      some (365 * (100 * century + 4 * quad + year)) :=
    i64_of_fits (by omega) (by omega)
  have quads : i64 (365 * (100 * century + 4 * quad + year) + (25 * century + quad)) =
      some (365 * (100 * century + 4 * quad + year) + (25 * century + quad)) :=
    i64_of_fits (by omega) (by omega)
  have elapsed : i64 (365 * (100 * century + 4 * quad + year) + (25 * century + quad) - century) =
      some (36524 * century + 1461 * quad + 365 * year) := by
    rw [i64_of_fits (by omega) (by omega)]
    congr 1
    ring
  have rest : i64 (doe - (36524 * century + 1461 * quad + 365 * year)) = some doy := by
    rw [i64_of_fits (by omega) (by omega)]
    congr 1
    omega
  simp only [Client.dayOfYear, Int.tdiv_eq_ediv_of_nonneg positive, fours, hundreds, common,
    quads, elapsed, rest, Option.bind_eq_bind, Option.bind_some]

theorem tdiv_era (z : Int) :
    (if 0 ≤ z then z else z - 146096).tdiv 146097 = z / 146097 := by
  split
  next nonneg => exact Int.tdiv_eq_ediv_of_nonneg nonneg
  next negative =>
    have flipped : z - 146096 = -(146096 - z) := by ring
    rw [flipped, Int.neg_tdiv, Int.tdiv_eq_ediv_of_nonneg (by omega)]
    omega

theorem splitEra_eq {z : Int} (least : -2 ^ 62 ≤ z) (most : z ≤ 2 ^ 62) :
    splitEra z = some (z / 146097, z % 146097) := by
  have dividend : eraDividend z = some (if 0 ≤ z then z else z - 146096) := by
    unfold eraDividend
    split
    next => rfl
    next => exact i64_of_fits (by omega) (by omega)
  have days : i64 (z / 146097 * 146097) = some (z / 146097 * 146097) :=
    i64_of_fits (by omega) (by omega)
  have rest : i64 (z - z / 146097 * 146097) = some (z % 146097) := by
    rw [i64_of_fits (by omega) (by omega)]
    congr 1
    omega
  simp only [splitEra, dividend, Option.bind_eq_bind, Option.bind_some, tdiv_era, days, rest]
  rfl

/-- The month that begins a number of months after March. -/
def monthFromMarch (mp : Int) : Int := if mp < 10 then mp + 3 else mp - 9

theorem monthAndDay_eq {doy mp : Int} (least : 0 ≤ doy) (most : doy ≤ 365)
    (month : mp = (5 * doy + 2) / 153) :
    monthAndDay doy =
      some ((monthFromMarch mp).toNat, (doy - (153 * mp + 2) / 5 + 1).toNat) := by
  have scaled : i64 (5 * doy) = some (5 * doy) := i64_of_fits (by omega) (by omega)
  have raised : i64 (5 * doy + 2) = some (5 * doy + 2) := i64_of_fits (by omega) (by omega)
  have mpRange : 0 ≤ mp ∧ mp ≤ 11 := by omega
  have monthScaled : i64 (153 * mp) = some (153 * mp) := i64_of_fits (by omega) (by omega)
  have monthRaised : i64 (153 * mp + 2) = some (153 * mp + 2) :=
    i64_of_fits (by omega) (by omega)
  have sinceMonth : i64 (doy - (153 * mp + 2) / 5) = some (doy - (153 * mp + 2) / 5) :=
    i64_of_fits (by omega) (by omega)
  have dayWide : i64 (doy - (153 * mp + 2) / 5 + 1) = some (doy - (153 * mp + 2) / 5 + 1) :=
    i64_of_fits (by omega) (by omega)
  have day : asU32 (doy - (153 * mp + 2) / 5 + 1) =
      some (doy - (153 * mp + 2) / 5 + 1).toNat :=
    asU32_of_fits (by omega) (by omega)
  have monthRange : 1 ≤ monthFromMarch mp ∧ monthFromMarch mp ≤ 12 := by
    unfold monthFromMarch
    omega
  have monthWide : i64 (if mp < 10 then mp + 3 else mp - 9) = some (monthFromMarch mp) :=
    i64_of_fits (by unfold monthFromMarch at monthRange; omega)
      (by unfold monthFromMarch at monthRange; omega)
  have monthCast : asU32 (monthFromMarch mp) = some (monthFromMarch mp).toNat :=
    asU32_of_fits (by omega) (by omega)
  have quotient : (5 * doy + 2).tdiv 153 = mp := by
    rw [Int.tdiv_eq_ediv_of_nonneg (by omega), month]
  have fifths : (153 * mp + 2).tdiv 5 = (153 * mp + 2) / 5 :=
    Int.tdiv_eq_ediv_of_nonneg (by omega)
  simp only [monthAndDay, scaled, raised, quotient, monthScaled, monthRaised, fifths, sinceMonth,
    dayWide, day, monthWide, monthCast, Option.bind_eq_bind, Option.bind_some]
  rfl

/-- From March to December the formula of the code is the table of months. -/
theorem daysToMonth_march (year : Int) {mp : Nat} (early : mp < 10) :
    daysToMonth year (mp + 3) + 306 = yearLength year + (153 * mp + 2) / 5 ∧
      monthLength year (mp + 3) + (153 * mp + 2) / 5 = (153 * (mp + 1) + 2) / 5 := by
  simp only [yearLength]
  interval_cases mp <;> simp only [daysToMonth, monthLength] <;> split <;> decide

theorem monthLength_february (year : Int) : monthLength year 2 + 337 = yearLength year := by
  simp only [monthLength, yearLength]
  split <;> rfl

/-- The date a number of days after the first of March of a year. -/
theorem exists_date_of_march {year doy : Int} (least : 0 ≤ doy)
    (most : doy < yearLength (year + 1)) :
    ∃ (month day : Nat), monthAndDay doy = some (month, day) ∧
      (⟨year + if month ≤ 2 then 1 else 0, month, day⟩ : Date).Valid ∧
      (⟨year + if month ≤ 2 then 1 else 0, month, day⟩ : Date).dayNumber =
        365 * year + leapDays year + doy - 719468 := by
  have length : yearLength (year + 1) ≤ 366 := by
    unfold yearLength
    split <;> decide
  have base : leapDays 1969 = 477 := by decide
  obtain ⟨mp, month⟩ : ∃ mp : Nat, (mp : Int) = (5 * doy + 2) / 153 :=
    ⟨((5 * doy + 2) / 153).toNat, by omega⟩
  refine ⟨_, _, monthAndDay_eq least (by omega) month, ?_⟩
  by_cases early : mp < 10
  · obtain ⟨before, monthDays⟩ := daysToMonth_march year early
    have number : (monthFromMarch mp).toNat = mp + 3 := by
      unfold monthFromMarch
      omega
    have here : year + (if mp + 3 ≤ 2 then 1 else 0) = year := by
      rw [if_neg (by omega), add_zero]
    rw [number, here]
    refine ⟨⟨by simp, by simp; omega, by simp; omega, by simp; omega⟩, ?_⟩
    have yearDays := yearLength_eq year
    simp only [Date.dayNumber, daysToYear_eq, base]
    omega
  · have same : year + 1 - 1 = year := by ring
    have february := monthLength_february (year + 1)
    have late : mp = 10 ∨ mp = 11 := by omega
    rcases late with rfl | rfl
    · have number : (monthFromMarch (10 : Nat)).toNat = 1 := by decide
      have days : daysToMonth (year + 1) 1 = 0 := rfl
      have lengthOf : monthLength (year + 1) 1 = 31 := rfl
      rw [number, if_pos (by decide)]
      refine ⟨⟨by simp, by simp, by simp; omega, by simp [lengthOf]; omega⟩, ?_⟩
      simp only [Date.dayNumber, daysToYear_eq, base, same, days]
      omega
    · have number : (monthFromMarch (11 : Nat)).toNat = 2 := by decide
      have days : daysToMonth (year + 1) 2 = 31 := rfl
      rw [number, if_pos (by decide)]
      refine ⟨⟨by simp, by simp, by simp; omega, by simp; omega⟩, ?_⟩
      simp only [Date.dayNumber, daysToYear_eq, base, same, days]
      omega

/-- The years of an era leave its days. -/
theorem EraDay.elapsed {doe century quad year doy : Int} (era : Int)
    (day : EraDay doe century quad year doy) :
    365 * (100 * century + 4 * quad + year + era * 400) +
        leapDays (100 * century + 4 * quad + year + era * 400) + doy =
      146097 * era + doe := by
  obtain ⟨split, centuryRange, quadRange, yearRange, doyRange, leap⟩ := day
  have fours : (100 * century + 4 * quad + year + era * 400) / 4 =
      25 * century + quad + 100 * era := by omega
  have hundreds : (100 * century + 4 * quad + year + era * 400) / 100 =
      century + 4 * era := by omega
  have eras : (100 * century + 4 * quad + year + era * 400) / 400 = era := by omega
  rw [leapDays, fours, hundreds, eras]
  omega

/-- The leap day of the following year is the last day. -/
theorem EraDay.doy_lt {doe century quad year doy : Int} (era : Int)
    (day : EraDay doe century quad year doy) :
    doy < yearLength (100 * century + 4 * quad + year + era * 400 + 1) := by
  obtain ⟨split, centuryRange, quadRange, yearRange, doyRange, leap⟩ := day
  by_cases last : doy = 365
  · obtain ⟨rfl, short⟩ := leap last
    have leapYear : isLeap (100 * century + 4 * quad + 3 + era * 400 + 1) = true := by
      simp only [isLeap, Bool.and_eq_true, Bool.or_eq_true, decide_eq_true_eq]
      omega
    rw [yearLength, if_pos leapYear]
    omega
  · have common : 365 ≤ yearLength (100 * century + 4 * quad + year + era * 400 + 1) := by
      unfold yearLength
      split <;> decide
    omega

/-- Every day number gives the date it belongs to. -/
theorem exists_civilFromDays {days : Int} (least : -2 ^ 61 ≤ days) (most : days ≤ 2 ^ 61) :
    ∃ date : Date, civilFromDays days = some date ∧ date.Valid ∧ date.dayNumber = days := by
  obtain ⟨century, quad, year, doy, day⟩ := exists_eraDay
    (Int.emod_nonneg (days + 719468) (by decide : (146097 : Int) ≠ 0))
    (Int.emod_lt_of_pos (days + 719468) (by decide : (0 : Int) < 146097))
  have elapsed := day.elapsed ((days + 719468) / 146097)
  have whole := Int.mul_ediv_add_emod (days + 719468) 146097
  obtain ⟨month, dayOfMonth, written, valid, number⟩ :=
    exists_date_of_march day.doyRange.1 (day.doy_lt ((days + 719468) / 146097))
  have eraRange : -2 ^ 61 ≤ (days + 719468) / 146097 ∧ (days + 719468) / 146097 ≤ 2 ^ 61 := by
    omega
  have yoeRange : 0 ≤ 100 * century + 4 * quad + year ∧
      100 * century + 4 * quad + year < 400 := by
    obtain ⟨_, centuryRange, quadRange, yearRange, _, _⟩ := day
    omega
  refine ⟨_, ?_, valid, by omega⟩
  generalize eraEq : (days + 719468) / 146097 = era at *
  have shifted : i64 (days + 719468) = some (days + 719468) :=
    i64_of_fits (by omega) (by omega)
  have split : splitEra (days + 719468) = some (era, (days + 719468) % 146097) := by
    rw [splitEra_eq (by omega) (by omega), eraEq]
  have eraYears : i64 (era * 400) = some (era * 400) := i64_of_fits (by omega) (by omega)
  have yearFits : i64 (100 * century + 4 * quad + year + era * 400) =
      some (100 * century + 4 * quad + year + era * 400) :=
    i64_of_fits (by omega) (by omega)
  have civilFits : i64 (100 * century + 4 * quad + year + era * 400 +
        if month ≤ 2 then 1 else 0) =
      some (100 * century + 4 * quad + year + era * 400 + if month ≤ 2 then 1 else 0) :=
    i64_of_fits (by split <;> omega) (by split <;> omega)
  simp only [civilFromDays, shifted, split, day.yearOfEra, eraYears, yearFits, day.dayOfYear,
    written, civilFits, Option.bind_eq_bind, Option.bind_some]
  rfl

theorem exists_civilFromDays_ofNat {days : Nat} (most : days ≤ 2 ^ 60) :
    ∃ date : Date, civilFromDays days = some date ∧ date.Valid ∧ date.dayNumber = days := by
  apply exists_civilFromDays
  · omega
  · omega

theorem exists_civilFromDays_succ {days : Nat} (most : days ≤ 2 ^ 60) :
    ∃ date : Date, civilFromDays (days + 1) = some date ∧ date.Valid ∧
      date.dayNumber = days + 1 := by
  apply exists_civilFromDays
  · omega
  · omega

theorem dayNumberOf_le (timestampMs : UInt64) : dayNumberOf timestampMs ≤ 2 ^ 60 := by
  have bound := timestampMs.toNat_lt
  simp only [dayNumberOf, UInt64.toNat_div, UInt64.reduceToNat]
  omega

/-- The time of day splits the second of the day. -/
theorem timeOfDay_recomposes (timestampMs : UInt64) :
    (timeOfDay timestampMs).hour < 24 ∧ (timeOfDay timestampMs).minute < 60 ∧
      (timeOfDay timestampMs).second < 60 ∧
      3600 * (timeOfDay timestampMs).hour + 60 * (timeOfDay timestampMs).minute +
        (timeOfDay timestampMs).second = timestampMs.toNat / 1000 % 86400 := by
  simp only [timeOfDay, UInt64.toNat_div, UInt64.toNat_mod, UInt64.reduceToNat]
  omega

theorem i64_dayNumberOf (timestampMs : UInt64) :
    i64 (dayNumberOf timestampMs) = some (dayNumberOf timestampMs : Int) := by
  have bound := dayNumberOf_le timestampMs
  generalize dayNumberOf timestampMs = days at bound ⊢
  exact i64_of_fits (by omega) (by omega)

theorem formatUtcMs_eq {timestampMs : UInt64} {date : Date}
    (converted : civilFromDays (dayNumberOf timestampMs) = some date) :
    formatUtcMs timestampMs = some (renderUtc date (timeOfDay timestampMs)) := by
  have opened : formatUtcMs timestampMs =
      (i64 (dayNumberOf timestampMs)).bind fun days =>
        (civilFromDays days).bind fun date => some (renderUtc date (timeOfDay timestampMs)) :=
    rfl
  rw [opened, i64_dayNumberOf, Option.bind_some, converted, Option.bind_some]

/-- The calendar of the listing: every timestamp has the one date with its
day number, the next day number has the next date, and nothing overflows on
the way. -/
theorem utc_calendar_is_correct (timestampMs : UInt64) :
    dayNumberOf timestampMs = timestampMs.toNat / 86400000 ∧
      ∃ date : Date,
        civilFromDays (dayNumberOf timestampMs) = some date ∧
        date.Valid ∧ date.dayNumber = dayNumberOf timestampMs ∧
        (∀ other : Date, other.Valid → other.dayNumber = dayNumberOf timestampMs →
          other = date) ∧
        civilFromDays (dayNumberOf timestampMs + 1) = some date.next ∧
        (timeOfDay timestampMs).hour < 24 ∧ (timeOfDay timestampMs).minute < 60 ∧
        (timeOfDay timestampMs).second < 60 ∧
        3600 * (timeOfDay timestampMs).hour + 60 * (timeOfDay timestampMs).minute +
          (timeOfDay timestampMs).second = timestampMs.toNat / 1000 % 86400 ∧
        formatUtcMs timestampMs = some (renderUtc date (timeOfDay timestampMs)) := by
  obtain ⟨date, converted, valid, number⟩ := exists_civilFromDays_ofNat (dayNumberOf_le timestampMs)
  obtain ⟨tomorrow, convertedNext, validNext, numberNext⟩ :=
    exists_civilFromDays_succ (dayNumberOf_le timestampMs)
  have following : tomorrow = date.next := by
    apply Date.eq_of_dayNumber validNext valid.next
    rw [numberNext, valid.dayNumber_next, number]
  obtain ⟨hour, minute, second, recomposed⟩ := timeOfDay_recomposes timestampMs
  refine ⟨?_, date, converted, valid, number, ?_, ?_, hour, minute, second, recomposed, ?_⟩
  · simp only [dayNumberOf, UInt64.toNat_div, UInt64.reduceToNat]
    omega
  · intro other otherValid sameNumber
    exact Date.eq_of_dayNumber otherValid valid (sameNumber.trans number.symm)
  · rw [convertedNext, following]
  · exact formatUtcMs_eq converted

example : formatUtcMs 1700000000000 = some "2023-11-14 22:13:20 UTC" := by decide +kernel

end Busyncr.Client
