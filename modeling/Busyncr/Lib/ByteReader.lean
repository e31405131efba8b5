import Busyncr.Lib.ByteCodec

/-!
Readers that take a record off the front of a byte string.

`Reads` relates a reader to an encoding: wherever the encoding stands at the
front of the input, the reader takes exactly it and returns the value.  It
composes along `bind`, so the round trip of a record follows its fields.

The other direction goes by inversion: a reader that succeeded on an input
took its value off the front of it, which `bind_ok` carries along a record.
-/

namespace ByteReader

abbrev Reader (Failure Value : Type) := StateT (List UInt8) (Except Failure) Value

variable {Failure Value Result : Type}

/-- Take the first bytes; the failure is told how many are missing. -/
def take (failure : Nat → Failure) (count : Nat) : Reader Failure (List UInt8) := fun input =>
  if input.length < count then .error (failure (count - input.length))
  else .ok (input.take count, input.drop count)

/-- Take a little-endian number of the given width. -/
def takeLittle (failure : Nat → Failure) (width : Nat) : Reader Failure Nat :=
  ByteCodec.littleValue <$> take failure width

/-- Run a reader a number of times; it is told the index of each run. -/
def many (reader : Nat → Reader Failure Value) :
    (count index : Nat) → Reader Failure (List Value)
  | 0, _ => pure []
  | count + 1, index => do
      let value ← reader index
      let rest ← many reader count (index + 1)
      return value :: rest

/-- In front of any input, the reader takes exactly this encoding. -/
def Reads (reader : Reader Failure Value) (encoding : List UInt8) (value : Value) : Prop :=
  ∀ rest, reader (encoding ++ rest) = .ok (value, rest)

theorem reads_pure (value : Value) : Reads (pure value : Reader Failure Value) [] value :=
  fun _ => rfl

theorem Reads.bind {reader : Reader Failure Value} {next : Value → Reader Failure Result}
    {first second : List UInt8} {value : Value} {result : Result}
    (taken : Reads reader first value) (continued : Reads (next value) second result) :
    Reads (reader >>= next) (first ++ second) result := by
  intro rest
  have head := taken (second ++ rest)
  change (reader (first ++ second ++ rest)).bind _ = _
  rw [List.append_assoc, head]
  exact continued rest

theorem Reads.map {reader : Reader Failure Value} {encoding : List UInt8} {value : Value}
    (change : Value → Result) (taken : Reads reader encoding value) :
    Reads (change <$> reader) encoding (change value) := by
  intro rest
  have head := taken rest
  change (reader (encoding ++ rest)).map _ = _
  rw [head]
  rfl

theorem reads_take (failure : Nat → Failure) (encoding : List UInt8) :
    Reads (take failure encoding.length) encoding encoding := by
  intro rest
  simp [take]

theorem reads_take_of_length (failure : Nat → Failure) {encoding : List UInt8} {count : Nat}
    (width : encoding.length = count) : Reads (take failure count) encoding encoding :=
  width ▸ reads_take failure encoding

theorem reads_takeLittle (failure : Nat → Failure) {width value : Nat}
    (small : value < 256 ^ width) :
    Reads (takeLittle failure width) (ByteCodec.little width value) value := by
  have taken := (reads_take_of_length failure (ByteCodec.length_little width value)).map
    ByteCodec.littleValue
  rwa [ByteCodec.littleValue_little_of_lt small] at taken

/-- A list of values is read back from their encodings one after another. -/
theorem reads_many {reader : Nat → Reader Failure Value} {encode : Value → List UInt8}
    {values : List Value} (each : ∀ index, ∀ value ∈ values, Reads (reader index) (encode value) value)
    (index : Nat) : Reads (many reader values.length index) (values.flatMap encode) values := by
  induction values generalizing index with
  | nil => exact reads_pure []
  | cons value rest inductionHypothesis =>
      have head := each index value (by simp)
      have tail := inductionHypothesis (fun position other membership =>
        each position other (by simp [membership])) (index + 1)
      have closed : Reads (many reader rest.length (index + 1) >>= fun values =>
          pure (value :: values)) (rest.flatMap encode ++ []) (value :: rest) :=
        tail.bind (reads_pure (value :: rest))
      rw [List.append_nil] at closed
      exact head.bind closed

section Inversion

theorem bind_ok {reader : Reader Failure Value} {next : Value → Reader Failure Result}
    {input rest : List UInt8} {result : Result}
    (succeeded : (reader >>= next) input = .ok (result, rest)) :
    ∃ value middle, reader input = .ok (value, middle) ∧
      next value middle = .ok (result, rest) := by
  change (reader input).bind _ = _ at succeeded
  cases taken : reader input with
  | error failure =>
      rw [taken] at succeeded
      cases succeeded
  | ok pair =>
      rw [taken] at succeeded
      exact ⟨pair.1, pair.2, rfl, succeeded⟩

theorem map_ok {reader : Reader Failure Value} {change : Value → Result}
    {input rest : List UInt8} {result : Result}
    (succeeded : (change <$> reader) input = .ok (result, rest)) :
    ∃ value, reader input = .ok (value, rest) ∧ change value = result := by
  change (reader input).map _ = _ at succeeded
  cases taken : reader input with
  | error failure =>
      rw [taken] at succeeded
      cases succeeded
  | ok pair =>
      rw [taken] at succeeded
      cases succeeded
      exact ⟨pair.1, rfl, rfl⟩

theorem pure_ok {value result : Value} {input rest : List UInt8}
    (succeeded : (pure value : Reader Failure Value) input = .ok (result, rest)) :
    value = result ∧ input = rest := by
  cases succeeded
  exact ⟨rfl, rfl⟩

theorem take_ok {failure : Nat → Failure} {count : Nat} {input bytes rest : List UInt8}
    (taken : take failure count input = .ok (bytes, rest)) :
    input = bytes ++ rest ∧ bytes.length = count := by
  unfold take at taken
  split at taken
  next => cases taken
  next long =>
    cases taken
    refine ⟨(List.take_append_drop count input).symm, ?_⟩
    rw [List.length_take]
    omega

theorem takeLittle_ok {failure : Nat → Failure} {width value : Nat} {input rest : List UInt8}
    (taken : takeLittle failure width input = .ok (value, rest)) :
    input = ByteCodec.little width value ++ rest ∧ value < 256 ^ width := by
  obtain ⟨bytes, front, rfl⟩ := map_ok taken
  obtain ⟨rfl, rfl⟩ := take_ok front
  rw [ByteCodec.little_littleValue]
  exact ⟨rfl, ByteCodec.littleValue_lt bytes⟩

/-- What a repeated reader took, value by value. -/
theorem many_ok {reader : Nat → Reader Failure Value} {encode : Value → List UInt8}
    (each : ∀ {index input value rest}, reader index input = .ok (value, rest) →
      input = encode value ++ rest)
    {count index : Nat} {input rest : List UInt8} {values : List Value}
    (taken : many reader count index input = .ok (values, rest)) :
    input = values.flatMap encode ++ rest ∧ values.length = count := by
  induction count generalizing index input values with
  | zero =>
      obtain ⟨rfl, rfl⟩ := pure_ok taken
      exact ⟨rfl, rfl⟩
  | succ count inductionHypothesis =>
      obtain ⟨value, middle, first, onward⟩ := bind_ok taken
      obtain ⟨others, last, further, closed⟩ := bind_ok onward
      obtain ⟨rfl, rfl⟩ := pure_ok closed
      obtain ⟨rfl, counted⟩ := inductionHypothesis further
      refine ⟨?_, by simp [counted]⟩
      rw [each first, List.flatMap_cons, List.append_assoc]

end Inversion

section Failures

/-- Every failure of the reader is of this kind. -/
def FailsOnly (reader : Reader Failure Value) (kind : Failure → Prop) : Prop :=
  ∀ input failure, reader input = .error failure → kind failure

/-- On every strict prefix of the encoding the reader fails, and in this way. -/
def Starves (reader : Reader Failure Value) (encoding : List UInt8) (kind : Failure → Prop) : Prop :=
  ∀ front back, encoding = front ++ back → back ≠ [] →
    ∃ failure, reader front = .error failure ∧ kind failure

variable {kind : Failure → Prop}

theorem failsOnly_pure (value : Value) : FailsOnly (pure value : Reader Failure Value) kind :=
  fun _ _ failed => by cases failed

theorem FailsOnly.bind {reader : Reader Failure Value} {next : Value → Reader Failure Result}
    (first : FailsOnly reader kind) (second : ∀ value, FailsOnly (next value) kind) :
    FailsOnly (reader >>= next) kind := by
  intro input failure failed
  change (reader input).bind _ = _ at failed
  cases taken : reader input with
  | error _ =>
      rw [taken] at failed
      cases failed
      exact first _ _ taken
  | ok pair =>
      rw [taken] at failed
      exact second pair.1 _ _ failed

theorem FailsOnly.map {reader : Reader Failure Value} (change : Value → Result)
    (fails : FailsOnly reader kind) : FailsOnly (change <$> reader) kind := by
  intro input failure failed
  change (reader input).map _ = _ at failed
  cases taken : reader input with
  | error _ =>
      rw [taken] at failed
      cases failed
      exact fails _ _ taken
  | ok pair =>
      rw [taken] at failed
      cases failed

theorem failsOnly_take {failure : Nat → Failure} (missing : ∀ {needed}, 0 < needed →
    kind (failure needed)) (count : Nat) : FailsOnly (take failure count) kind := by
  intro input error failed
  unfold take at failed
  split at failed
  next short =>
    cases failed
    exact missing (Nat.sub_pos_of_lt short)
  next => cases failed

theorem failsOnly_many {reader : Nat → Reader Failure Value}
    (each : ∀ index, FailsOnly (reader index) kind) (count index : Nat) :
    FailsOnly (many reader count index) kind := by
  induction count generalizing index with
  | zero => exact failsOnly_pure []
  | succ count inductionHypothesis =>
      apply (each index).bind
      intro value
      apply (inductionHypothesis (index + 1)).bind
      intro values
      exact failsOnly_pure (value :: values)

theorem starves_nil (reader : Reader Failure Value) : Starves reader [] kind := by
  intro front back split nonempty
  exact absurd (List.append_eq_nil_iff.mp split.symm).2 nonempty

theorem Starves.bind {reader : Reader Failure Value} {next : Value → Reader Failure Result}
    {first second : List UInt8} {value : Value} (short : Starves reader first kind)
    (taken : Reads reader first value) (shortNext : Starves (next value) second kind) :
    Starves (reader >>= next) (first ++ second) kind := by
  intro front back split nonempty
  obtain ⟨beyond, rfl, cut⟩ | ⟨missing, rfl, rest⟩ := List.append_eq_append_iff.mp split
  · obtain ⟨failure, failed, kept⟩ := shortNext _ _ cut nonempty
    refine ⟨failure, ?_, kept⟩
    change (reader (first ++ beyond)).bind _ = _
    rw [taken beyond]
    exact failed
  · by_cases whole : missing = []
    · subst whole
      rw [List.nil_append] at rest
      obtain ⟨failure, failed, kept⟩ := shortNext [] _ rest.symm nonempty
      refine ⟨failure, ?_, kept⟩
      have read := taken []
      rw [List.append_nil, List.append_nil] at read
      change (reader front).bind _ = _
      rw [read]
      exact failed
    · obtain ⟨failure, failed, kept⟩ := short _ _ rfl whole
      refine ⟨failure, ?_, kept⟩
      change (reader front).bind _ = _
      rw [failed]
      rfl

theorem Starves.map {reader : Reader Failure Value} {encoding : List UInt8}
    (change : Value → Result) (short : Starves reader encoding kind) :
    Starves (change <$> reader) encoding kind := by
  intro front back split nonempty
  obtain ⟨failure, failed, kept⟩ := short _ _ split nonempty
  refine ⟨failure, ?_, kept⟩
  change (reader front).map _ = _
  rw [failed]
  rfl

theorem starves_take {failure : Nat → Failure} (missing : ∀ {needed}, 0 < needed →
    kind (failure needed)) {encoding : List UInt8} {count : Nat}
    (width : encoding.length = count) : Starves (take failure count) encoding kind := by
  rintro front back rfl nonempty
  have short : front.length < count := by
    have remains := List.length_pos_iff.mpr nonempty
    rw [List.length_append] at width
    omega
  exact ⟨_, if_pos short, missing (Nat.sub_pos_of_lt short)⟩

theorem starves_many {reader : Nat → Reader Failure Value} {encode : Value → List UInt8}
    {values : List Value}
    (each : ∀ index, ∀ value ∈ values, Reads (reader index) (encode value) value ∧
      Starves (reader index) (encode value) kind) (index : Nat) :
    Starves (many reader values.length index) (values.flatMap encode) kind := by
  induction values generalizing index with
  | nil => exact starves_nil _
  | cons value rest inductionHypothesis =>
      obtain ⟨read, short⟩ := each index value List.mem_cons_self
      apply short.bind read
      have others : ∀ position, ∀ other ∈ rest, Reads (reader position) (encode other) other ∧
          Starves (reader position) (encode other) kind :=
        fun position other member => each position other (List.mem_cons_of_mem _ member)
      have reads := reads_many (fun position other member => (others position other member).1)
        (index + 1)
      have closed : Starves (many reader rest.length (index + 1) >>= fun values =>
          pure (value :: values)) (rest.flatMap encode ++ []) kind :=
        (inductionHypothesis others (index + 1)).bind reads (starves_nil _)
      rwa [List.append_nil] at closed

end Failures

end ByteReader
