import Mathlib.Data.List.Basic
import Mathlib.Tactic.Ring
import Mathlib.Tactic.Linarith

/-!
Fixed-width byte encodings of numbers, and the splitting of a byte string
into blocks of one size.

`little` and `littleValue` are inverse to each other at every width, so a
record made of such fields can be read back field by field.
-/

namespace ByteCodec

/-- The `width` low-order bytes of a number, least significant first. -/
def little : (width value : Nat) → List UInt8
  | 0, _ => []
  | width + 1, value => UInt8.ofNat value :: little width (value / 256)

/-- The number denoted by a byte string, least significant byte first. -/
def littleValue : List UInt8 → Nat
  | [] => 0
  | byte :: rest => byte.toNat + 256 * littleValue rest

/-- The `width` low-order bytes of a number, most significant first. -/
def big (width value : Nat) : List UInt8 := (little width value).reverse

/-- The number denoted by a byte string, most significant byte first. -/
def bigValue (bytes : List UInt8) : Nat := littleValue bytes.reverse

@[simp]
theorem length_little (width value : Nat) : (little width value).length = width := by
  induction width generalizing value with
  | zero => rfl
  | succ width inductionHypothesis => simp [little, inductionHypothesis]

@[simp]
theorem length_big (width value : Nat) : (big width value).length = width := by
  simp [big]

theorem littleValue_little (width value : Nat) :
    littleValue (little width value) = value % 256 ^ width := by
  induction width generalizing value with
  | zero => simp [little, littleValue, Nat.mod_one]
  | succ width inductionHypothesis =>
      have split : value % 256 ^ (width + 1) =
          value % 256 + 256 * (value / 256 % 256 ^ width) := by
        rw [pow_succ' 256 width, Nat.mod_mul]
      simp only [little, littleValue, inductionHypothesis, UInt8.toNat_ofNat', split]

theorem littleValue_little_of_lt {width value : Nat} (small : value < 256 ^ width) :
    littleValue (little width value) = value := by
  rw [littleValue_little, Nat.mod_eq_of_lt small]

theorem littleValue_lt (bytes : List UInt8) :
    littleValue bytes < 256 ^ bytes.length := by
  induction bytes with
  | nil => simp [littleValue]
  | cons byte rest inductionHypothesis =>
      have byteBound := byte.toNat_lt
      simp only [littleValue, List.length_cons, pow_succ']
      omega

theorem little_littleValue (bytes : List UInt8) :
    little bytes.length (littleValue bytes) = bytes := by
  induction bytes with
  | nil => rfl
  | cons byte rest inductionHypothesis =>
      have byteBound := byte.toNat_lt
      have quotient : (byte.toNat + 256 * littleValue rest) / 256 = littleValue rest := by
        omega
      have remainder : UInt8.ofNat (byte.toNat + 256 * littleValue rest) = byte := by
        apply UInt8.toNat_inj.mp
        rw [UInt8.toNat_ofNat']
        omega
      simp only [little, littleValue, List.length_cons, quotient, remainder,
        inductionHypothesis]

theorem bigValue_big_of_lt {width value : Nat} (small : value < 256 ^ width) :
    bigValue (big width value) = value := by
  simp [bigValue, big, littleValue_little_of_lt small]

theorem big_bigValue (bytes : List UInt8) : big bytes.length (bigValue bytes) = bytes := by
  have reversed := little_littleValue bytes.reverse
  rw [List.length_reverse] at reversed
  simp [big, bigValue, reversed]

theorem bigValue_lt (bytes : List UInt8) : bigValue bytes < 256 ^ bytes.length := by
  simpa [bigValue] using littleValue_lt bytes.reverse

/-- The consecutive blocks of exactly `size` elements; a shorter remainder is
left out. -/
def exactBlocks {Alpha : Type*} (size : Nat) (values : List Alpha) : List (List Alpha) :=
  (List.range (values.length / size)).map fun index =>
    (values.drop (index * size)).take size

theorem length_exactBlocks_le {Alpha : Type*} (size : Nat) (values : List Alpha) :
    (exactBlocks size values).length ≤ values.length := by
  simpa [exactBlocks] using Nat.div_le_self values.length size

/-- Splitting a concatenation of blocks of one positive size recovers the
blocks. -/
theorem exactBlocks_flatten {Alpha : Type*} {size : Nat} (positive : 0 < size)
    (blocks : List (List Alpha)) (uniform : ∀ block ∈ blocks, block.length = size) :
    exactBlocks size blocks.flatten = blocks := by
  induction blocks with
  | nil => simp [exactBlocks]
  | cons block rest inductionHypothesis =>
      have blockSize : block.length = size := uniform block (by simp)
      have recovered := inductionHypothesis fun other membership =>
        uniform other (by simp [membership])
      have count : (block ++ rest.flatten).length / size =
          rest.flatten.length / size + 1 := by
        rw [List.length_append, blockSize, Nat.add_comm, Nat.add_div_right _ positive]
      unfold exactBlocks at recovered ⊢
      rw [List.flatten_cons, count, List.range_succ_eq_map, List.map_cons, List.map_map]
      congr 1
      · simp [← blockSize]
      · conv_rhs => rw [← recovered]
        apply List.map_congr_left
        intro index _
        have offset : (index + 1) * size = block.length + index * size := by
          rw [blockSize]; ring
        simp only [Function.comp_apply, Nat.succ_eq_add_one, offset,
          List.drop_length_add_append]

end ByteCodec
