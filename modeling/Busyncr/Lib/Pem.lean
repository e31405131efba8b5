import Busyncr.Lib.Base64

/-!
Textual certificates: the lines of a text, the lines between two boundary
lines, and the bytes they encode.

A line ends with a line feed, with or without a carriage return before it;
the last one may end with the text.
-/

namespace Pem

/-- Cut behind every line feed. -/
def splitInclusive : List Char → List (List Char)
  | [] => []
  | char :: rest =>
      if char = '\n' then [char] :: splitInclusive rest
      else
        match splitInclusive rest with
        | [] => [[char]]
        | line :: lines => (char :: line) :: lines

/-- Take off a line feed, and then a carriage return. -/
def stripLineEnd (line : List Char) : List Char :=
  if line.getLast? = some '\n' then
    if line.dropLast.getLast? = some '\r' then line.dropLast.dropLast else line.dropLast
  else line

/-- `str::lines`. -/
def lines (text : List Char) : List (List Char) := (splitInclusive text).map stripLineEnd

/-- `char::is_whitespace`: the white space of Unicode. -/
def isWhitespace (char : Char) : Bool :=
  let code := char.toNat
  (0x9 ≤ code && code ≤ 0xd) || code = 0x20 || code = 0x85 || code = 0xa0 || code = 0x1680 ||
    (0x2000 ≤ code && code ≤ 0x200a) || code = 0x2028 || code = 0x2029 || code = 0x202f ||
    code = 0x205f || code = 0x3000

/-- `str::trim`. -/
def trim (chars : List Char) : List Char :=
  ((chars.dropWhile isWhitespace).reverse.dropWhile isWhitespace).reverse

/-- The UTF-8 bytes of a text. -/
def bytesOf (chars : List Char) : List UInt8 := chars.flatMap String.utf8EncodeChar

/-- The bytes encoded between the boundary lines, which begin with the
marker. -/
def toDer (alphabet : List UInt8) (marker : List Char) (text : List Char) :
    Option (List UInt8) :=
  let body := ((lines text).filter fun line => !marker.isPrefixOf line).flatten
  Base64.decode alphabet (bytesOf (trim body))

def dashes : List Char := ['-', '-', '-', '-', '-']

inductive LineEnd where
  | lf
  | crlf
deriving DecidableEq

def LineEnd.chars : LineEnd → List Char
  | .lf => ['\n']
  | .crlf => ['\r', '\n']

/-- A line that begins with the dashes of a boundary. -/
structure Boundary (line : List Char) : Prop where
  marked : dashes <+: line
  single : '\n' ∉ line

def asciiChar (byte : UInt8) : Char := Char.ofNat byte.toNat

/-- A text of one block: a boundary line, the encoded bytes over lines of any
positive widths, and a boundary line that may end the text. -/
inductive IsBlock (der : List UInt8) : List Char → Prop where
  | intro (header : List Char) (headerEnd : LineEnd) (body : List (List Char × LineEnd))
      (footer : List Char) (footerEnd : Option LineEnd) (opened : Boundary header)
      (closed : Boundary footer) (widths : ∀ line ∈ body, line.1 ≠ [])
      (encoded : (body.map Prod.fst).flatten = (Base64.encode der).map asciiChar) :
      IsBlock der (header ++ headerEnd.chars ++
        (body.flatMap fun line => line.1 ++ line.2.chars) ++
        (footer ++ (footerEnd.map LineEnd.chars).getD []))

theorem splitInclusive_line {line : List Char} (single : '\n' ∉ line) (rest : List Char) :
    splitInclusive (line ++ '\n' :: rest) = (line ++ ['\n']) :: splitInclusive rest := by
  induction line with
  | nil => simp [splitInclusive]
  | cons char others inductionHypothesis =>
      have other : char ≠ '\n' := by
        rintro rfl
        exact single (by simp)
      have onward := inductionHypothesis fun listed => single (by simp [listed])
      rw [List.cons_append, splitInclusive, if_neg other, onward]
      rfl

theorem splitInclusive_last {line : List Char} (single : '\n' ∉ line) (nonempty : line ≠ []) :
    splitInclusive line = [line] := by
  induction line with
  | nil => exact absurd rfl nonempty
  | cons char others inductionHypothesis =>
      have other : char ≠ '\n' := by
        rintro rfl
        exact single (by simp)
      rw [splitInclusive, if_neg other]
      cases others with
      | nil => rfl
      | cons next later =>
          rw [inductionHypothesis (fun listed => single (by simp [listed])) (by simp)]

theorem lines_cons {line : List Char} (single : '\n' ∉ line) (lineEnd : LineEnd)
    (rest : List Char) :
    lines (line ++ lineEnd.chars ++ rest) = stripLineEnd (line ++ lineEnd.chars) :: lines rest := by
  cases lineEnd with
  | lf => simp [lines, LineEnd.chars, splitInclusive_line single]
  | crlf =>
      have returned : '\n' ∉ line ++ ['\r'] := by simp [single]
      have split := splitInclusive_line returned rest
      simp only [List.append_assoc, List.cons_append, List.nil_append] at split
      simp [lines, LineEnd.chars, split]

theorem stripLineEnd_append (line : List Char) :
    stripLineEnd (line ++ ['\n']) =
      if line.getLast? = some '\r' then line.dropLast else line := by
  simp [stripLineEnd]

/-- A line without a carriage return of its own comes back whole. -/
theorem stripLineEnd_of_bare {line : List Char} (bare : '\r' ∉ line) (lineEnd : LineEnd) :
    stripLineEnd (line ++ lineEnd.chars) = line := by
  cases lineEnd with
  | lf =>
      have last : line.getLast? ≠ some '\r' := fun returned =>
        bare (List.mem_of_getLast? returned)
      rw [LineEnd.chars, stripLineEnd_append, if_neg last]
  | crlf =>
      have grouped : line ++ ['\r', '\n'] = (line ++ ['\r']) ++ ['\n'] := by simp
      rw [LineEnd.chars, grouped, stripLineEnd_append]
      simp

theorem Boundary.nonempty {line : List Char} (boundary : Boundary line) : line ≠ [] := by
  rintro rfl
  simpa [dashes] using boundary.marked

/-- A boundary keeps its dashes, whatever is taken off its end. -/
theorem Boundary.strip {line : List Char} (boundary : Boundary line) (lineEnd : LineEnd) :
    dashes <+: stripLineEnd (line ++ lineEnd.chars) := by
  obtain ⟨label, rfl⟩ := boundary.marked
  cases lineEnd with
  | lf =>
      rw [LineEnd.chars, stripLineEnd_append]
      split
      next returned =>
        cases label with
        | nil => simp [dashes] at returned
        | cons char rest =>
            rw [List.dropLast_append_of_ne_nil (by simp)]
            exact List.prefix_append _ _
      next => exact List.prefix_append _ _
  | crlf =>
      have grouped : dashes ++ label ++ ['\r', '\n'] = (dashes ++ label ++ ['\r']) ++ ['\n'] := by
        simp
      rw [LineEnd.chars, grouped, stripLineEnd_append]
      simp

/-- The closing boundary is one line with its dashes, with or without an end
of its own. -/
theorem Boundary.lines_footer {line : List Char} (boundary : Boundary line)
    (lineEnd : Option LineEnd) :
    ∃ shown, lines (line ++ (lineEnd.map LineEnd.chars).getD []) = [shown] ∧ dashes <+: shown := by
  cases lineEnd with
  | none =>
      refine ⟨line, ?_, boundary.marked⟩
      have last : line.getLast? ≠ some '\n' := fun feed =>
        boundary.single (List.mem_of_getLast? feed)
      simp [lines, splitInclusive_last boundary.single boundary.nonempty, stripLineEnd, last]
  | some lineEnd =>
      refine ⟨stripLineEnd (line ++ lineEnd.chars), ?_, boundary.strip lineEnd⟩
      have split := lines_cons boundary.single lineEnd []
      simpa [lines, splitInclusive] using split

/-- Lines of the body stay as they are. -/
theorem lines_body {body : List (List Char × LineEnd)} (rest : List Char)
    (clean : ∀ line ∈ body, '\n' ∉ line.1 ∧ '\r' ∉ line.1) :
    lines ((body.flatMap fun line => line.1 ++ line.2.chars) ++ rest) =
      body.map Prod.fst ++ lines rest := by
  induction body with
  | nil => rfl
  | cons line others inductionHypothesis =>
      obtain ⟨⟨single, bare⟩, tail⟩ := List.forall_mem_cons.mp clean
      rw [List.flatMap_cons, List.append_assoc, lines_cons single,
        stripLineEnd_of_bare bare, inductionHypothesis tail]
      rfl

/-- A character of the encoding is one byte of plain text. -/
theorem asciiChar_facts {byte : UInt8} (listed : byte ∈ Base64.padding :: Base64.standard) :
    String.utf8EncodeChar (asciiChar byte) = [byte] ∧ isWhitespace (asciiChar byte) = false ∧
      asciiChar byte ≠ '-' ∧ asciiChar byte ≠ '\n' ∧ asciiChar byte ≠ '\r' := by
  have every : ∀ byte ∈ Base64.padding :: Base64.standard,
      String.utf8EncodeChar (asciiChar byte) = [byte] ∧ isWhitespace (asciiChar byte) = false ∧
        asciiChar byte ≠ '-' ∧ asciiChar byte ≠ '\n' ∧ asciiChar byte ≠ '\r' := by
    decide +kernel
  exact every byte listed

theorem bytesOf_asciiChars {bytes : List UInt8}
    (plain : ∀ byte ∈ bytes, byte ∈ Base64.padding :: Base64.standard) :
    bytesOf (bytes.map asciiChar) = bytes := by
  induction bytes with
  | nil => rfl
  | cons byte rest inductionHypothesis =>
      obtain ⟨head, tail⟩ := List.forall_mem_cons.mp plain
      have onward := inductionHypothesis tail
      rw [bytesOf] at onward ⊢
      rw [List.map_cons, List.flatMap_cons, (asciiChar_facts head).1, onward]
      rfl

theorem dropWhile_of_none {chars : List Char} (none : ∀ char ∈ chars, isWhitespace char = false) :
    chars.dropWhile isWhitespace = chars := by
  cases chars with
  | nil => rfl
  | cons char rest => simp [none char (by simp)]

theorem trim_of_none {chars : List Char} (none : ∀ char ∈ chars, isWhitespace char = false) :
    trim chars = chars := by
  rw [trim, dropWhile_of_none none, dropWhile_of_none, List.reverse_reverse]
  exact fun char listed => none char (List.mem_reverse.mp listed)

section Body

variable {der : List UInt8} {body : List (List Char × LineEnd)}

/-- The lines of a body consist of characters of the encoding. -/
theorem exists_byte_of_body
    (encoded : (body.map Prod.fst).flatten = (Base64.encode der).map asciiChar)
    {line : List Char × LineEnd} (inBody : line ∈ body) {char : Char} (inLine : char ∈ line.1) :
    ∃ byte ∈ Base64.padding :: Base64.standard, char = asciiChar byte := by
  have listed : char ∈ (body.map Prod.fst).flatten :=
    List.mem_flatten.mpr ⟨line.1, List.mem_map.mpr ⟨line, inBody, rfl⟩, inLine⟩
  rw [encoded] at listed
  obtain ⟨byte, inEncoding, rfl⟩ := List.mem_map.mp listed
  exact ⟨byte, Base64.mem_encode inEncoding, rfl⟩

theorem clean_of_body
    (encoded : (body.map Prod.fst).flatten = (Base64.encode der).map asciiChar) :
    ∀ line ∈ body, '\n' ∉ line.1 ∧ '\r' ∉ line.1 := by
  intro line inBody
  constructor
  · intro listed
    obtain ⟨byte, inAlphabet, equal⟩ := exists_byte_of_body encoded inBody listed
    exact (asciiChar_facts inAlphabet).2.2.2.1 equal.symm
  · intro listed
    obtain ⟨byte, inAlphabet, equal⟩ := exists_byte_of_body encoded inBody listed
    exact (asciiChar_facts inAlphabet).2.2.2.2 equal.symm

/-- No line of a body is taken for a boundary. -/
theorem filter_body (widths : ∀ line ∈ body, line.1 ≠ [])
    (encoded : (body.map Prod.fst).flatten = (Base64.encode der).map asciiChar) :
    ((body.map Prod.fst).filter fun line => !dashes.isPrefixOf line) = body.map Prod.fst := by
  apply List.filter_eq_self.mpr
  intro line listed
  obtain ⟨pair, inBody, rfl⟩ := List.mem_map.mp listed
  cases chars : pair.1 with
  | nil => exact absurd chars (widths pair inBody)
  | cons char rest =>
      obtain ⟨byte, inAlphabet, equal⟩ :=
        exists_byte_of_body encoded inBody (by simp [chars] : char ∈ pair.1)
      have other : '-' ≠ char := equal ▸ (asciiChar_facts inAlphabet).2.2.1.symm
      simp [dashes, List.isPrefixOf, other]

end Body

/-- What is left of a block without its boundary lines. -/
theorem filter_lines_of_block {header footer : List Char} {headerEnd : LineEnd}
    {footerEnd : Option LineEnd} {body : List (List Char × LineEnd)} {der : List UInt8}
    (opened : Boundary header) (closed : Boundary footer) (widths : ∀ line ∈ body, line.1 ≠ [])
    (encoded : (body.map Prod.fst).flatten = (Base64.encode der).map asciiChar) :
    ((lines (header ++ headerEnd.chars ++ (body.flatMap fun line => line.1 ++ line.2.chars) ++
      (footer ++ (footerEnd.map LineEnd.chars).getD []))).filter
        fun line => !dashes.isPrefixOf line) = body.map Prod.fst := by
  obtain ⟨shown, footerLine, footerMarked⟩ := closed.lines_footer footerEnd
  have headerMarked := List.isPrefixOf_iff_prefix.mpr (opened.strip headerEnd)
  have closing := List.isPrefixOf_iff_prefix.mpr footerMarked
  rw [List.append_assoc _ (body.flatMap _), lines_cons opened.single,
    lines_body _ (clean_of_body encoded), footerLine]
  simp [headerMarked, filter_body widths encoded, closing]

/-- A block decodes to the bytes it was made from, whatever its line widths
and line ends. -/
theorem toDer_of_block {der : List UInt8} {text : List Char} (block : IsBlock der text) :
    toDer Base64.standard dashes text = some der := by
  cases block with
  | intro header headerEnd body footer footerEnd opened closed widths encoded =>
      have bare : ∀ char ∈ (Base64.encode der).map asciiChar, isWhitespace char = false := by
        intro char listed
        obtain ⟨byte, inEncoding, rfl⟩ := List.mem_map.mp listed
        exact (asciiChar_facts (Base64.mem_encode inEncoding)).2.1
      rw [toDer, filter_lines_of_block opened closed widths encoded, encoded, trim_of_none bare,
        bytesOf_asciiChars fun byte => Base64.mem_encode, Base64.decode_encode]

end Pem
