import Busyncr.Core.Identity
import Busyncr.Lib.Hex

/-!
The text form of a chunk ID: `Display` writes 64 lowercase digits, `FromStr`
counts the characters and then draws two digits for every byte.
-/

namespace Busyncr

inductive ChunkIdParseError where
  | badLength (count : Nat)
  | badChar (char : Char)
deriving DecidableEq

namespace ChunkId

/-- The `Display` form: every byte as two lowercase digits. -/
def display (id : ChunkId) : String := String.ofList (Hex.digits id.asBytes)

/-- One turn of the inner loop: draw a character and shift its digit in. -/
def drawDigit (value : UInt8) : List Char → Except ChunkIdParseError (UInt8 × List Char)
  | [] => .error (.badLength 64)
  | char :: rest =>
      match Hex.toDigit char with
      | none => .error (.badChar char)
      | some digit => .ok (Hex.shiftIn value digit, rest)

/-- Two draws for one byte. -/
def drawByte (chars : List Char) : Except ChunkIdParseError (UInt8 × List Char) :=
  match drawDigit 0 chars with
  | .error error => .error error
  | .ok (value, rest) => drawDigit value rest

/-- Fill the bytes of an array one after another. -/
def drawBytes : (count : Nat) → List Char →
    Except ChunkIdParseError { bytes : Bytes // bytes.length = count }
  | 0, _ => .ok ⟨[], rfl⟩
  | count + 1, chars =>
      match drawByte chars with
      | .error error => .error error
      | .ok (byte, rest) =>
          match drawBytes count rest with
          | .error error => .error error
          | .ok bytes => .ok ⟨byte :: bytes.1, by simp [bytes.2]⟩

/-- Parse the text form; digits of both cases are read. -/
def fromStr (text : String) : Except ChunkIdParseError ChunkId :=
  if text.length ≠ 64 then .error (.badLength text.length)
  else
    match drawBytes 32 text.toList with
    | .error error => .error error
    | .ok bytes => .ok ⟨⟨bytes.1.toArray, by simp [bytes.2]⟩⟩

theorem drawByte_of_digits {first second : Char} (rest : List Char)
    (firstDigit : first ∈ Hex.alphabet) (secondDigit : second ∈ Hex.alphabet) :
    ∃ byte, drawByte (first :: second :: rest) = .ok (byte, rest) ∧
      Hex.pair byte = [first.toLower, second.toLower] := by
  obtain ⟨high, highSmall, readHigh, highChar⟩ := Hex.toDigit_of_mem firstDigit
  obtain ⟨low, lowSmall, readLow, lowChar⟩ := Hex.toDigit_of_mem secondDigit
  refine ⟨Hex.shiftIn (Hex.shiftIn 0 high) low, by simp [drawByte, drawDigit, readHigh, readLow],
    ?_⟩
  rw [Hex.pair_shiftIn highSmall lowSmall, highChar, lowChar]

/-- Digits fill the array, and its own digits are theirs in lower case. -/
theorem drawBytes_of_digits (count : Nat) {chars : List Char} (width : chars.length = 2 * count)
    (every : ∀ char ∈ chars, char ∈ Hex.alphabet) :
    ∃ bytes, drawBytes count chars = .ok bytes ∧ Hex.digits bytes.1 = chars.map Char.toLower := by
  induction count generalizing chars with
  | zero =>
      have empty : chars = [] := List.length_eq_zero_iff.mp width
      exact ⟨⟨[], rfl⟩, rfl, by simp [empty, Hex.digits]⟩
  | succ count inductionHypothesis =>
      obtain ⟨first, tail, rfl⟩ := List.exists_cons_of_length_eq_add_one width
      obtain ⟨second, rest, rfl⟩ :=
        List.exists_cons_of_length_eq_add_one (Nat.succ.inj width)
      have restWidth : rest.length = 2 * count := by
        simp only [List.length_cons] at width
        omega
      obtain ⟨byte, drawn, pair⟩ := drawByte_of_digits rest (every first (by simp))
        (every second (by simp))
      obtain ⟨bytes, filled, digits⟩ := inductionHypothesis restWidth
        (fun char listed => every char (by simp [listed]))
      refine ⟨⟨byte :: bytes.1, by simp [bytes.2]⟩, by simp [drawBytes, drawn, filled], ?_⟩
      simpa [Hex.digits, pair] using digits

/-- A foreign character stops the loop at the first one. -/
theorem drawBytes_of_foreign (count : Nat) {chars : List Char} {bad : Char}
    (width : chars.length = 2 * count)
    (found : chars.find? (fun char => char ∉ Hex.alphabet) = some bad) :
    drawBytes count chars = .error (.badChar bad) := by
  induction count generalizing chars with
  | zero =>
      have empty : chars = [] := List.length_eq_zero_iff.mp width
      simp [empty] at found
  | succ count inductionHypothesis =>
      match chars, width, found with
      | first :: second :: rest, width, found =>
          by_cases firstDigit : first ∈ Hex.alphabet
          · obtain ⟨high, _, readHigh, _⟩ := Hex.toDigit_of_mem firstDigit
            by_cases secondDigit : second ∈ Hex.alphabet
            · obtain ⟨byte, drawn, _⟩ := drawByte_of_digits rest firstDigit secondDigit
              have restWidth : rest.length = 2 * count := by
                simp only [List.length_cons] at width
                omega
              have onward := inductionHypothesis restWidth
                (by simpa [List.find?_cons, firstDigit, secondDigit] using found)
              simp [drawBytes, drawn, onward]
            · have unread := Hex.toDigit_eq_none_iff.mpr secondDigit
              have same : second = bad := by
                simpa [List.find?_cons, firstDigit, secondDigit] using found
              simp [drawBytes, drawByte, drawDigit, readHigh, unread, ← same]
          · have unread := Hex.toDigit_eq_none_iff.mpr firstDigit
            have same : first = bad := by
              simpa [List.find?_cons, firstDigit] using found
            simp [drawBytes, drawByte, drawDigit, unread, ← same]

@[simp]
theorem length_display (id : ChunkId) : id.display.length = 64 := by
  simp [display]

theorem mem_lowercase_of_mem_display {id : ChunkId} {char : Char}
    (listed : char ∈ id.display.toList) : char ∈ Hex.lowercase := by
  apply Hex.mem_lowercase_of_mem_digits
  simpa [display] using listed

theorem display_injective : Function.Injective display := by
  intro left right same
  apply asBytes_injective
  apply Hex.digits_injective
  exact String.ofList_inj.mp same

theorem fromStr_of_length {text : String} (wrong : text.length ≠ 64) :
    fromStr text = .error (.badLength text.length) :=
  if_pos wrong

theorem fromStr_of_foreign {text : String} {bad : Char} (width : text.length = 64)
    (found : text.toList.find? (fun char => char ∉ Hex.alphabet) = some bad) :
    fromStr text = .error (.badChar bad) := by
  have drawn := drawBytes_of_foreign 32 (String.length_toList.trans width) found
  rw [fromStr, if_neg (not_not.mpr width), drawn]

/-- Text of 64 digits is read, and shown again in lower case. -/
theorem fromStr_of_digits {text : String} (width : text.length = 64)
    (every : ∀ char ∈ text.toList, char ∈ Hex.alphabet) :
    ∃ id, fromStr text = .ok id ∧ id.display.toList = text.toList.map Char.toLower := by
  obtain ⟨bytes, drawn, digits⟩ := drawBytes_of_digits 32 (String.length_toList.trans width) every
  refine ⟨⟨⟨bytes.1.toArray, by simp [bytes.2]⟩⟩, ?_, ?_⟩
  · rw [fromStr, if_neg (not_not.mpr width), drawn]
  · simpa [display, asBytes, Vector.toList] using digits

theorem fromStr_display (id : ChunkId) : fromStr id.display = .ok id := by
  obtain ⟨read, parsed, shown⟩ := fromStr_of_digits (length_display id) fun char listed =>
    Hex.mem_alphabet_of_mem_lowercase (mem_lowercase_of_mem_display listed)
  have lower : id.display.toList.map Char.toLower = id.display.toList := by
    conv_rhs => rw [← List.map_id id.display.toList]
    apply List.map_congr_left
    intro char listed
    exact Hex.toLower_of_mem_lowercase (mem_lowercase_of_mem_display listed)
  rw [lower] at shown
  rw [parsed, display_injective (String.toList_inj.mp shown)]

/-- Exactly the texts of 64 digits are read. -/
theorem exists_fromStr_iff {text : String} :
    (∃ id, fromStr text = .ok id) ↔
      text.length = 64 ∧ ∀ char ∈ text.toList, char ∈ Hex.alphabet := by
  constructor
  · rintro ⟨id, parsed⟩
    by_cases width : text.length = 64
    · refine ⟨width, ?_⟩
      cases found : text.toList.find? (fun char => char ∉ Hex.alphabet) with
      | none => simpa using found
      | some bad =>
          rw [fromStr_of_foreign width found] at parsed
          cases parsed
    · rw [fromStr_of_length width] at parsed
      cases parsed
  · rintro ⟨width, every⟩
    obtain ⟨id, parsed, _⟩ := fromStr_of_digits width every
    exact ⟨id, parsed⟩

/-- What was read is shown in lower case. -/
theorem display_of_fromStr {text : String} {id : ChunkId} (parsed : fromStr text = .ok id) :
    id.display.toList = text.toList.map Char.toLower := by
  obtain ⟨width, every⟩ := exists_fromStr_iff.mp ⟨id, parsed⟩
  obtain ⟨read, readable, shown⟩ := fromStr_of_digits width every
  rw [parsed] at readable
  cases readable
  exact shown

end ChunkId

end Busyncr
