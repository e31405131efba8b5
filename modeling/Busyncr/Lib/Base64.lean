import Busyncr.Lib.ByteCodec
import Mathlib.Tactic.IntervalCases

/-!
Base64: the padded encoding of byte strings, and a decoder that shifts the
values of four characters into one word.

The decoder looks characters up in a table reversed from its alphabet; over
the standard alphabet it inverts the encoding at every length.
-/

namespace Base64

def asciiBytes (text : String) : List UInt8 := text.toList.map fun char => UInt8.ofNat char.toNat

/-- The standard alphabet. -/
def standard : List UInt8 :=
  asciiBytes "ABCDEFGHIJKLMNOPQRSTUVWXYZabcdefghijklmnopqrstuvwxyz0123456789+/"

def padding : UInt8 := 0x3d

/-- The character of a value below 64. -/
def sextet (value : Nat) : UInt8 := standard.getD value 0

/-- The padded standard encoding: three bytes as four characters. -/
def encode : List UInt8 → List UInt8
  | first :: second :: third :: rest =>
      let word := first.toNat * 65536 + second.toNat * 256 + third.toNat
      sextet (word / 262144) :: sextet (word / 4096 % 64) :: sextet (word / 64 % 64) ::
        sextet (word % 64) :: encode rest
  | [first, second] =>
      let word := first.toNat * 65536 + second.toNat * 256
      [sextet (word / 262144), sextet (word / 4096 % 64), sextet (word / 64 % 64), padding]
  | [first] =>
      let word := first.toNat * 65536
      [sextet (word / 262144), sextet (word / 4096 % 64), padding, padding]
  | [] => []

section Decoder

variable (alphabet : List UInt8)

/-- The value of every byte, 255 for those outside the alphabet. -/
def reverseTable : UInt8 → UInt8 :=
  alphabet.zipIdx.foldl
    (fun table entry byte => if byte = entry.1 then UInt8.ofNat entry.2 else table byte)
    fun _ => 255

def isAsciiWhitespace (byte : UInt8) : Bool :=
  byte = 0x20 || byte = 0x09 || byte = 0x0a || byte = 0x0c || byte = 0x0d

/-- Take off the padding; more than two characters of it are refused. -/
def stripPadding (raw : List UInt8) : Option (List UInt8) :=
  let pad := (raw.reverse.takeWhile (· = padding)).length
  if pad ≤ 2 then some (raw.take (raw.length - pad)) else none

/-- Groups of four, the last one shorter. -/
def groups : List UInt8 → List (List UInt8)
  | first :: second :: third :: fourth :: rest => [first, second, third, fourth] :: groups rest
  | [] => []
  | short => [short]

/-- Shift the values of the characters in, until one is foreign. -/
def accumulate (word : UInt32) : List UInt8 → Option UInt32
  | [] => some word
  | char :: rest =>
      if reverseTable alphabet char = 255 then none
      else accumulate ((word <<< 6) ||| (reverseTable alphabet char).toUInt32) rest

/-- The bytes of one group. -/
def decodeGroup (group : List UInt8) : Option (List UInt8) :=
  if group.length = 1 then none
  else
    match accumulate alphabet 0 group with
    | none => none
    | some word =>
        let aligned := word <<< UInt32.ofNat (6 * (4 - group.length))
        some (((ByteCodec.big 4 aligned.toNat).take group.length).drop 1)

def decodeGroups : List (List UInt8) → Option (List UInt8)
  | [] => some []
  | group :: rest =>
      match decodeGroup alphabet group with
      | none => none
      | some bytes =>
          match decodeGroups rest with
          | none => none
          | some others => some (bytes ++ others)

def decode (text : List UInt8) : Option (List UInt8) :=
  match stripPadding (text.filter fun byte => !isAsciiWhitespace byte) with
  | none => none
  | some stripped => decodeGroups alphabet (groups stripped)

end Decoder

theorem sextet_facts {value : Nat} (small : value < 64) :
    (reverseTable standard (sextet value)).toNat = value ∧ sextet value ≠ padding ∧
      sextet value ∈ standard := by
  have every : ∀ value : Fin 64,
      (reverseTable standard (sextet value)).toNat = value ∧ sextet value ≠ padding ∧
        sextet value ∈ standard := by
    decide +kernel
  exact every ⟨value, small⟩

theorem toNat_shiftLeft_of_lt {word : UInt32} {count : Nat} (bits : count < 32)
    (room : word.toNat * 2 ^ count < 2 ^ 32) :
    (word <<< UInt32.ofNat count).toNat = word.toNat * 2 ^ count := by
  have amount : (UInt32.ofNat count).toNat % 32 = count := by
    rw [UInt32.toNat_ofNat']
    omega
  rw [UInt32.toNat_shiftLeft, amount, Nat.shiftLeft_eq, Nat.mod_eq_of_lt room]

/-- Shifting six bits in. -/
theorem toNat_shiftIn {word : UInt32} {value : UInt8} (room : word.toNat < 2 ^ 26)
    (small : value.toNat < 64) :
    ((word <<< 6) ||| value.toUInt32).toNat = word.toNat * 64 + value.toNat := by
  have shifted : (word <<< 6).toNat = word.toNat * 2 ^ 6 :=
    toNat_shiftLeft_of_lt (by decide) (by norm_num; omega)
  rw [UInt32.toNat_or, shifted, UInt8.toNat_toUInt32, ← Nat.shiftLeft_eq,
    ← Nat.shiftLeft_add_eq_or_of_lt (by omega : value.toNat < 2 ^ 6), Nat.shiftLeft_eq]

/-- The word of the values, first one highest. -/
def wordOf (word : Nat) (values : List Nat) : Nat :=
  values.foldl (fun word value => word * 64 + value) word

theorem wordOf_lt {word : Nat} {values : List Nat} (small : ∀ value ∈ values, value < 64) :
    wordOf word values < (word + 1) * 64 ^ values.length := by
  induction values generalizing word with
  | nil => simp [wordOf]
  | cons value rest inductionHypothesis =>
      obtain ⟨head, tail⟩ := List.forall_mem_cons.mp small
      calc wordOf word (value :: rest) = wordOf (word * 64 + value) rest := rfl
        _ < (word * 64 + value + 1) * 64 ^ rest.length := inductionHypothesis tail
        _ ≤ ((word + 1) * 64) * 64 ^ rest.length := by
          apply Nat.mul_le_mul_right
          omega
        _ = (word + 1) * 64 ^ (value :: rest).length := by
          rw [List.length_cons, pow_succ]
          ring

/-- Characters of the alphabet shift their values in. -/
theorem accumulate_sextets {word : UInt32} {values : List Nat}
    (small : ∀ value ∈ values, value < 64)
    (room : (word.toNat + 1) * 64 ^ values.length ≤ 2 ^ 32) :
    ∃ result, accumulate standard word (values.map sextet) = some result ∧
      result.toNat = wordOf word.toNat values := by
  induction values generalizing word with
  | nil => exact ⟨word, rfl, rfl⟩
  | cons value rest inductionHypothesis =>
      obtain ⟨head, tail⟩ := List.forall_mem_cons.mp small
      obtain ⟨read, _, _⟩ := sextet_facts head
      have known : reverseTable standard (sextet value) ≠ 255 := by
        intro foreign
        rw [foreign] at read
        simp at read
        omega
      have positive : 1 ≤ 64 ^ rest.length := Nat.one_le_pow _ _ (by decide)
      rw [List.length_cons, pow_succ] at room
      have narrow : word.toNat < 2 ^ 26 := by nlinarith
      have shifted := toNat_shiftIn narrow (by omega :
        (reverseTable standard (sextet value)).toNat < 64)
      rw [read] at shifted
      have next : (((word <<< 6) ||| (reverseTable standard (sextet value)).toUInt32).toNat + 1) *
          64 ^ rest.length ≤ 2 ^ 32 := by
        rw [shifted]
        calc (word.toNat * 64 + value + 1) * 64 ^ rest.length
            ≤ ((word.toNat + 1) * 64) * 64 ^ rest.length := by
              apply Nat.mul_le_mul_right
              omega
          _ = (word.toNat + 1) * (64 ^ rest.length * 64) := by ring
          _ ≤ 2 ^ 32 := room
      obtain ⟨result, accumulated, total⟩ := inductionHypothesis tail next
      refine ⟨result, ?_, ?_⟩
      · rw [List.map_cons, accumulate, if_neg known, accumulated]
      · rw [total, shifted]
        rfl

/-- A group of characters gives the leading bytes of its aligned word. -/
theorem decodeGroup_sextets {values : List Nat} (small : ∀ value ∈ values, value < 64)
    (least : 2 ≤ values.length) (most : values.length ≤ 4) :
    decodeGroup standard (values.map sextet) =
      some (((ByteCodec.big 4 (wordOf 0 values * 64 ^ (4 - values.length))).take
        values.length).drop 1) := by
  have fits : ((0 : UInt32).toNat + 1) * 64 ^ values.length ≤ 2 ^ 32 := by
    calc ((0 : UInt32).toNat + 1) * 64 ^ values.length ≤ 1 * 64 ^ 4 := by
          apply Nat.mul_le_mul_left
          exact Nat.pow_le_pow_right (by decide) most
      _ ≤ 2 ^ 32 := by decide
  obtain ⟨result, accumulated, total⟩ := accumulate_sextets small fits
  have bound : wordOf 0 values < (0 + 1) * 64 ^ values.length := wordOf_lt small
  have width : (values.map sextet).length = values.length := List.length_map _
  have scale : 64 ^ (4 - values.length) = 2 ^ (6 * (4 - values.length)) := by
    rw [pow_mul]
    norm_num
  have room : result.toNat * 2 ^ (6 * (4 - values.length)) < 2 ^ 32 := by
    rw [total, ← scale]
    calc wordOf 0 values * 64 ^ (4 - values.length)
        < (0 + 1) * 64 ^ values.length * 64 ^ (4 - values.length) :=
          Nat.mul_lt_mul_of_pos_right bound (Nat.pow_pos (by decide))
      _ = 64 ^ 4 := by rw [zero_add, one_mul, ← pow_add, Nat.add_sub_cancel' most]
      _ ≤ 2 ^ 32 := by decide
  have aligned := toNat_shiftLeft_of_lt (by omega) room
  rw [decodeGroup, width, if_neg (by omega), accumulated]
  simp only [aligned, total, scale]
  rfl

/-- The values of the four characters of a word of 24 bits. -/
def values (word : Nat) : List Nat := [word / 262144, word / 4096 % 64, word / 64 % 64, word % 64]

/-- The word of three bytes. -/
def threeBytes (first second third : UInt8) : Nat :=
  first.toNat * 65536 + second.toNat * 256 + third.toNat

/-- The encoding without its padding. -/
def unpadded : List UInt8 → List UInt8
  | first :: second :: third :: rest =>
      ((values (threeBytes first second third)).take 4).map sextet ++ unpadded rest
  | [first, second] => ((values (threeBytes first second 0)).take 3).map sextet
  | [first] => ((values (threeBytes first 0 0)).take 2).map sextet
  | [] => []

theorem threeBytes_lt (first second third : UInt8) :
    threeBytes first second third < 2 ^ 24 := by
  unfold threeBytes
  have firstBound := first.toNat_lt
  have secondBound := second.toNat_lt
  have thirdBound := third.toNat_lt
  omega

theorem values_small {word : Nat} (bound : word < 2 ^ 24) {count : Nat} :
    ∀ value ∈ (values word).take count, value < 64 := by
  intro value listed
  have member := List.mem_of_mem_take listed
  simp only [values, List.mem_cons, List.not_mem_nil, or_false] at member
  omega

theorem exists_encode_eq (bytes : List UInt8) :
    ∃ count ≤ 2, encode bytes = unpadded bytes ++ List.replicate count padding := by
  induction bytes using encode.induct with
  | case1 first second third rest inductionHypothesis =>
      obtain ⟨count, small, equal⟩ := inductionHypothesis
      exact ⟨count, small, by simp [encode, unpadded, equal, values, threeBytes]⟩
  | case2 first second =>
      exact ⟨1, by decide, by simp [encode, unpadded, values, threeBytes]⟩
  | case3 first => exact ⟨2, by decide, by simp [encode, unpadded, values, threeBytes]⟩
  | case4 => exact ⟨0, by decide, rfl⟩

/-- Every character of the unpadded encoding is one of the alphabet. -/
theorem mem_unpadded {bytes : List UInt8} {char : UInt8} (listed : char ∈ unpadded bytes) :
    ∃ value < 64, char = sextet value := by
  have group : ∀ {word count : Nat}, word < 2 ^ 24 →
      char ∈ ((values word).take count).map sextet → ∃ value < 64, char = sextet value := by
    intro word count bound mapped
    obtain ⟨value, inValues, rfl⟩ := List.mem_map.mp mapped
    exact ⟨value, values_small bound value inValues, rfl⟩
  induction bytes using unpadded.induct with
  | case1 first second third rest inductionHypothesis =>
      rcases List.mem_append.mp listed with here | later
      · exact group (threeBytes_lt first second third) here
      · exact inductionHypothesis later
  | case2 first second => exact group (threeBytes_lt first second 0) listed
  | case3 first => exact group (threeBytes_lt first 0 0) listed
  | case4 => cases listed

theorem mem_encode {bytes : List UInt8} {char : UInt8} (listed : char ∈ encode bytes) :
    char ∈ padding :: standard := by
  obtain ⟨count, _, equal⟩ := exists_encode_eq bytes
  rw [equal] at listed
  rcases List.mem_append.mp listed with body | pad
  · obtain ⟨value, small, rfl⟩ := mem_unpadded body
    exact List.mem_cons_of_mem _ (sextet_facts small).2.2
  · rw [List.eq_of_mem_replicate pad]
    exact List.mem_cons_self

theorem stripPadding_append {body : List UInt8} {count : Nat} (small : count ≤ 2)
    (clean : padding ∉ body) :
    stripPadding (body ++ List.replicate count padding) = some body := by
  have counted : ((body ++ List.replicate count padding).reverse.takeWhile
      (· = padding)).length = count := by
    rw [List.reverse_append, List.reverse_replicate, List.takeWhile_append_of_pos]
    · have none : body.reverse.takeWhile (· = padding) = [] := by
        cases reversed : body.reverse with
        | nil => rfl
        | cons last rest =>
            have other : last ≠ padding := by
              rintro rfl
              exact clean (List.mem_reverse.mp (reversed ▸ List.mem_cons_self))
            simp [other]
      rw [none]
      simp
    · intro char pad
      simp [List.eq_of_mem_replicate pad]
  simp only [stripPadding, counted, if_pos small]
  simp

/-- The low bytes of a word of three. -/
theorem big_of_word (first second third : UInt8) :
    ByteCodec.big 4 (threeBytes first second third) = [0, first, second, third] := by
  have firstBound := first.toNat_lt
  have secondBound := second.toNat_lt
  have thirdBound := third.toNat_lt
  have bytes : ∀ {value : Nat} {byte : UInt8}, value % 256 = byte.toNat →
      UInt8.ofNat value = byte := by
    intro value byte equal
    apply UInt8.toNat_inj.mp
    rw [UInt8.toNat_ofNat']
    exact equal
  simp only [threeBytes, ByteCodec.big, ByteCodec.little, List.reverse_cons, List.reverse_nil,
    List.nil_append, List.cons_append, List.cons.injEq, and_true]
  refine ⟨bytes ?_, bytes ?_, bytes ?_, bytes ?_⟩
  · simp
    omega
  · omega
  · omega
  · omega

/-- Characters that carry the whole word decode to its leading bytes. -/
theorem decodeGroup_values {word count : Nat} (bound : word < 2 ^ 24) (least : 2 ≤ count)
    (most : count ≤ 4) (whole : word % 64 ^ (4 - count) = 0) :
    decodeGroup standard (((values word).take count).map sextet) =
      some (((ByteCodec.big 4 word).take count).drop 1) := by
  have width : ((values word).take count).length = count := by
    rw [List.length_take]
    simp only [values, List.length_cons, List.length_nil]
    omega
  have joined : wordOf 0 ((values word).take count) * 64 ^ (4 - count) = word := by
    interval_cases count <;> simp [wordOf, values] at whole ⊢ <;> omega
  have decoded := decodeGroup_sextets (values_small bound) (width.symm ▸ least)
    (width.symm ▸ most)
  rw [width, joined] at decoded
  exact decoded

theorem groups_append {group rest : List UInt8} (four : group.length = 4) :
    groups (group ++ rest) = group :: groups rest := by
  match group, four with
  | [first, second, third, fourth], _ => rfl

theorem groups_short {group : List UInt8} (nonempty : group ≠ []) (short : group.length < 4) :
    groups group = [group] := by
  match group, nonempty, short with
  | [_], _, _ => rfl
  | [_, _], _, _ => rfl
  | [_, _, _], _, _ => rfl

theorem decodeGroups_unpadded (bytes : List UInt8) :
    decodeGroups standard (groups (unpadded bytes)) = some bytes := by
  induction bytes using unpadded.induct with
  | case1 first second third rest inductionHypothesis =>
      have decoded := decodeGroup_values (threeBytes_lt first second third) (by decide) (le_refl 4)
        (Nat.mod_one _)
      rw [big_of_word] at decoded
      rw [unpadded, groups_append (by simp [values]), decodeGroups, decoded, inductionHypothesis]
      rfl
  | case2 first second =>
      have whole : threeBytes first second 0 % 64 ^ (4 - 3) = 0 := by
        simp only [threeBytes, UInt8.toNat_zero, Nat.reduceSub, pow_one]
        omega
      have decoded := decodeGroup_values (threeBytes_lt first second 0) (by decide) (by decide)
        whole
      rw [big_of_word] at decoded
      rw [unpadded, groups_short (by simp [values]) (by simp [values]), decodeGroups, decoded]
      rfl
  | case3 first =>
      have whole : threeBytes first 0 0 % 64 ^ (4 - 2) = 0 := by
        simp only [threeBytes, UInt8.toNat_zero, Nat.reduceSub, Nat.reducePow]
        omega
      have decoded := decodeGroup_values (threeBytes_lt first 0 0) (by decide) (by decide) whole
      rw [big_of_word] at decoded
      rw [unpadded, groups_short (by simp [values]) (by simp [values]), decodeGroups, decoded]
      rfl
  | case4 => rfl

theorem not_whitespace_of_mem {char : UInt8} (listed : char ∈ padding :: standard) :
    isAsciiWhitespace char = false := by
  have every : (padding :: standard).all (fun char => !isAsciiWhitespace char) = true := by decide
  simpa using List.all_eq_true.mp every char listed

/-- The decoder inverts the padded encoding. -/
theorem decode_encode (bytes : List UInt8) : decode standard (encode bytes) = some bytes := by
  have kept : (encode bytes).filter (fun byte => !isAsciiWhitespace byte) = encode bytes := by
    apply List.filter_eq_self.mpr
    intro char listed
    rw [not_whitespace_of_mem (mem_encode listed)]
    rfl
  have clean : padding ∉ unpadded bytes := by
    intro listed
    obtain ⟨value, small, equal⟩ := mem_unpadded listed
    exact (sextet_facts small).2.1 equal.symm
  obtain ⟨count, small, equal⟩ := exists_encode_eq bytes
  rw [decode, kept, equal, stripPadding_append small clean]
  exact decodeGroups_unpadded bytes

end Base64
