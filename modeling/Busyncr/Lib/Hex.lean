import Mathlib.Data.List.Basic
import Mathlib.Tactic.IntervalCases

/-!
Hexadecimal text: two lowercase digits for a byte, and digits of either case
read back by shifting them into a byte.
-/

namespace Hex

/-- The two digits of a byte, high half first. -/
def pair (byte : UInt8) : List Char :=
  [Nat.digitChar (byte.toNat / 16), Nat.digitChar (byte.toNat % 16)]

/-- The lowercase digits of a byte string. -/
def digits (bytes : List UInt8) : List Char := bytes.flatMap pair

/-- The value of a digit of base sixteen, in either case. -/
def toDigit (char : Char) : Option Nat :=
  if '0' ≤ char ∧ char ≤ '9' then some (char.toNat - '0'.toNat)
  else if 'a' ≤ char ∧ char ≤ 'f' then some (char.toNat - 'a'.toNat + 10)
  else if 'A' ≤ char ∧ char ≤ 'F' then some (char.toNat - 'A'.toNat + 10)
  else none

/-- Shift a digit into the low half of a byte. -/
def shiftIn (byte : UInt8) (digit : Nat) : UInt8 := byte <<< 4 ||| UInt8.ofNat digit

/-- The digits of both cases. -/
def alphabet : List Char := "0123456789abcdefABCDEF".toList

/-- The digits in lower case. -/
def lowercase : List Char := "0123456789abcdef".toList

theorem eq_ofNat_of_between {char low high : Char} (least : low ≤ char) (most : char ≤ high) :
    ∃ offset < high.toNat + 1 - low.toNat, char = Char.ofNat (low.toNat + offset) := by
  have lower : low.toNat ≤ char.toNat := least
  have upper : char.toNat ≤ high.toNat := most
  refine ⟨char.toNat - low.toNat, by omega, ?_⟩
  rw [Nat.add_sub_cancel' lower, Char.ofNat_toNat]

theorem digitChar_mem {value : Nat} (small : value < 16) : Nat.digitChar value ∈ lowercase := by
  interval_cases value <;> decide

theorem mem_alphabet_of_mem_lowercase {char : Char} (listed : char ∈ lowercase) :
    char ∈ alphabet := by
  have every : (lowercase.all fun char => char ∈ alphabet) = true := by decide
  exact of_decide_eq_true (List.all_eq_true.mp every char listed)

theorem toLower_of_mem_lowercase {char : Char} (listed : char ∈ lowercase) :
    char.toLower = char := by
  have every : (lowercase.all fun char => char.toLower = char) = true := by decide
  exact of_decide_eq_true (List.all_eq_true.mp every char listed)

theorem toDigit_digitChar {value : Nat} (small : value < 16) :
    toDigit (Nat.digitChar value) = some value := by
  interval_cases value <;> decide

/-- A digit is written back in lower case. -/
theorem toDigit_of_mem {char : Char} (listed : char ∈ alphabet) :
    ∃ value < 16, toDigit char = some value ∧ Nat.digitChar value = char.toLower := by
  have every : (alphabet.all fun char => (toDigit char).any fun value =>
      value < 16 ∧ Nat.digitChar value = char.toLower) = true := by
    decide +kernel
  obtain ⟨value, read, both⟩ := (Option.any_eq_true _ _).mp (List.all_eq_true.mp every char listed)
  obtain ⟨small, written⟩ := of_decide_eq_true both
  exact ⟨value, small, read, written⟩

theorem toDigit_isSome_iff {char : Char} : (toDigit char).isSome = true ↔ char ∈ alphabet := by
  constructor
  · intro digit
    have between : ∀ offset < 10, Char.ofNat ('0'.toNat + offset) ∈ alphabet := by decide
    have lower : ∀ offset < 6, Char.ofNat ('a'.toNat + offset) ∈ alphabet := by decide
    have upper : ∀ offset < 6, Char.ofNat ('A'.toNat + offset) ∈ alphabet := by decide
    unfold toDigit at digit
    split at digit
    next range =>
      obtain ⟨offset, small, rfl⟩ := eq_ofNat_of_between range.1 range.2
      exact between offset small
    next =>
      split at digit
      next range =>
        obtain ⟨offset, small, rfl⟩ := eq_ofNat_of_between range.1 range.2
        exact lower offset small
      next =>
        split at digit
        next range =>
          obtain ⟨offset, small, rfl⟩ := eq_ofNat_of_between range.1 range.2
          exact upper offset small
        next => cases digit
  · intro listed
    obtain ⟨value, _, read, _⟩ := toDigit_of_mem listed
    simp [read]

theorem toDigit_eq_none_iff {char : Char} : toDigit char = none ↔ char ∉ alphabet := by
  rw [← toDigit_isSome_iff, Option.not_isSome_iff_eq_none]

@[simp]
theorem length_pair (byte : UInt8) : (pair byte).length = 2 := rfl

@[simp]
theorem length_digits (bytes : List UInt8) : (digits bytes).length = 2 * bytes.length := by
  simp [digits, List.length_flatMap, mul_comm]

/-- Two digits shifted into a byte are the digits of it. -/
theorem pair_shiftIn {high low : Nat} (highSmall : high < 16) (lowSmall : low < 16) :
    pair (shiftIn (shiftIn 0 high) low) = [Nat.digitChar high, Nat.digitChar low] := by
  have every : ∀ high low : Fin 16,
      pair (shiftIn (shiftIn 0 high) low) = [Nat.digitChar high, Nat.digitChar low] := by
    decide +kernel
  exact every ⟨high, highSmall⟩ ⟨low, lowSmall⟩

theorem shiftIn_halves (byte : UInt8) :
    shiftIn (shiftIn 0 (byte.toNat / 16)) (byte.toNat % 16) = byte := by
  have every : ∀ value : Fin 256,
      shiftIn (shiftIn 0 ((UInt8.ofFin value).toNat / 16)) ((UInt8.ofFin value).toNat % 16) =
        UInt8.ofFin value := by
    decide +kernel
  exact every byte.toFin

theorem pair_injective : Function.Injective pair := by
  intro left right same
  have leftBound := left.toNat_lt
  have rightBound := right.toNat_lt
  simp only [pair, List.cons.injEq, and_true] at same
  have high := congrArg toDigit same.1
  have low := congrArg toDigit same.2
  rw [toDigit_digitChar (by omega), toDigit_digitChar (by omega)] at high low
  rw [← shiftIn_halves left, ← shiftIn_halves right, Option.some.inj high, Option.some.inj low]

theorem digits_injective : Function.Injective digits := by
  intro left
  induction left with
  | nil =>
      intro right same
      have width := congrArg List.length same
      simp only [length_digits, List.length_nil] at width
      exact (List.length_eq_zero_iff.mp (by omega)).symm
  | cons byte rest inductionHypothesis =>
      intro right same
      cases right with
      | nil => simp [digits, pair] at same
      | cons other others =>
          have split : pair byte = pair other ∧ digits rest = digits others :=
            List.append_inj (by simpa [digits] using same) (by simp)
          rw [pair_injective split.1, inductionHypothesis split.2]

theorem mem_lowercase_of_mem_digits {bytes : List UInt8} {char : Char}
    (listed : char ∈ digits bytes) : char ∈ lowercase := by
  obtain ⟨byte, _, written⟩ := List.mem_flatMap.mp listed
  have bound := byte.toNat_lt
  simp only [pair, List.mem_cons, List.not_mem_nil, or_false] at written
  rcases written with rfl | rfl
  · exact digitChar_mem (by omega)
  · exact digitChar_mem (by omega)

end Hex
