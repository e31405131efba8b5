import Busyncr.Lib.ByteReader

/-!
Readers that keep account of what they have built, on failure too.

A plain reader forgets its progress when it fails.  A metered one leaves
behind the input it had not taken yet and the items it had built.  `Erases`
says that the meter changes nothing, `Spends` that every item built was paid
for with bytes of the input; both compose along `bind`.
-/

namespace ByteReader

/-- The input left, and the items built so far. -/
structure Meter (Item : Type) where
  input : List UInt8
  built : List Item

abbrev MeteredReader (Failure Item Value : Type) := ExceptT Failure (StateM (Meter Item)) Value

variable {Failure Item Value Result : Type}

/-- A plain reader, on the input of the meter. -/
def metered (reader : Reader Failure Value) : MeteredReader Failure Item Value := fun meter =>
  match reader meter.input with
  | .error failure => (.error failure, meter)
  | .ok (value, rest) => (.ok value, { meter with input := rest })

def build (item : Item) : MeteredReader Failure Item Unit := fun meter =>
  (.ok (), { meter with built := meter.built ++ [item] })

/-- Build the item of a value. -/
def record (itemOf : Value → Item) (reader : MeteredReader Failure Item Value) :
    MeteredReader Failure Item Value := do
  let value ← reader
  build (itemOf value)
  return value

def manyMetered (reader : Nat → MeteredReader Failure Item Value) :
    (count index : Nat) → MeteredReader Failure Item (List Value)
  | 0, _ => pure []
  | count + 1, index => do
      let value ← reader index
      let rest ← manyMetered reader count (index + 1)
      return value :: rest

/-- Without its meter, the reader is the plain one. -/
def Erases (reader : MeteredReader Failure Item Value) (plain : Reader Failure Value) : Prop :=
  ∀ meter, (reader meter).1.map (fun value => (value, (reader meter).2.input)) =
    plain meter.input

/-- The input left and the items built, at so many bytes an item. -/
def Meter.level (weight : Nat) (meter : Meter Item) : Nat :=
  meter.input.length + weight * meter.built.length

/-- The reader leaves a suffix of its input, and at most the level it found;
when it succeeds, the level has fallen by the cost. -/
def Spends (weight : Nat) (reader : MeteredReader Failure Item Value) (cost : Nat) : Prop :=
  ∀ meter, (reader meter).2.input <:+ meter.input ∧
    (reader meter).2.level weight ≤ meter.level weight ∧
    ∀ value, (reader meter).1 = .ok value →
      (reader meter).2.level weight + cost ≤ meter.level weight

/-- A plain reader that takes at least so many bytes. -/
def Takes (reader : Reader Failure Value) (cost : Nat) : Prop :=
  ∀ input value rest, reader input = .ok (value, rest) →
    ∃ front, input = front ++ rest ∧ cost ≤ front.length

section Binding

variable {reader : MeteredReader Failure Item Value}
  {next : Value → MeteredReader Failure Item Result} {meter after : Meter Item}

theorem bind_of_error {failure : Failure} (failed : reader meter = (.error failure, after)) :
    (reader >>= next) meter = (.error failure, after) := by
  simp only [bind, ExceptT.bind, ExceptT.mk, StateT.bind, ExceptT.bindCont, failed]
  rfl

theorem bind_of_ok {value : Value} (taken : reader meter = (.ok value, after)) :
    (reader >>= next) meter = next value after := by
  simp only [bind, ExceptT.bind, ExceptT.mk, StateT.bind, ExceptT.bindCont, taken]

end Binding

section Erasure

theorem erases_pure (value : Value) :
    Erases (pure value : MeteredReader Failure Item Value) (pure value) := fun _ => rfl

theorem erases_metered (reader : Reader Failure Value) :
    Erases (metered reader : MeteredReader Failure Item Value) reader := by
  intro meter
  unfold metered
  cases taken : reader meter.input with
  | error failure => rfl
  | ok pair => rfl

theorem Erases.bind {reader : MeteredReader Failure Item Value} {plain : Reader Failure Value}
    {next : Value → MeteredReader Failure Item Result} {plainNext : Value → Reader Failure Result}
    (first : Erases reader plain) (second : ∀ value, Erases (next value) (plainNext value)) :
    Erases (reader >>= next) (plain >>= plainNext) := by
  intro meter
  have erased := first meter
  change _ = (plain meter.input).bind _
  rw [← erased]
  rcases run : reader meter with ⟨result, after⟩
  cases result with
  | error failure =>
      rw [bind_of_error run]
      rfl
  | ok value =>
      rw [bind_of_ok run]
      exact second value after

theorem Erases.record {reader : MeteredReader Failure Item Value} {plain : Reader Failure Value}
    (itemOf : Value → Item) (erases : Erases reader plain) :
    Erases (record itemOf reader) plain := by
  intro meter
  have erased := erases meter
  rw [← erased]
  unfold ByteReader.record
  rcases run : reader meter with ⟨result, after⟩
  cases result with
  | error failure => rw [bind_of_error run]
  | ok value =>
      rw [bind_of_ok run]
      rfl

theorem erases_many {reader : Nat → MeteredReader Failure Item Value}
    {plain : Nat → Reader Failure Value} (each : ∀ index, Erases (reader index) (plain index))
    (count index : Nat) : Erases (manyMetered reader count index) (many plain count index) := by
  induction count generalizing index with
  | zero => exact erases_pure []
  | succ count inductionHypothesis =>
      apply (each index).bind
      intro value
      apply (inductionHypothesis (index + 1)).bind
      intro values
      exact erases_pure (value :: values)

end Erasure

section Spending

variable {weight : Nat}

theorem spends_pure (value : Value) :
    Spends weight (pure value : MeteredReader Failure Item Value) 0 :=
  fun _ => ⟨List.suffix_rfl, Nat.le_refl _, fun _ _ => Nat.le_refl _⟩

theorem spends_metered {reader : Reader Failure Value} {cost : Nat} (takes : Takes reader cost) :
    Spends weight (metered reader : MeteredReader Failure Item Value) cost := by
  intro meter
  unfold metered
  cases taken : reader meter.input with
  | error failure =>
      exact ⟨List.suffix_rfl, Nat.le_refl _, fun _ succeeded => by cases succeeded⟩
  | ok pair =>
      obtain ⟨front, split, enough⟩ := takes _ _ _ taken
      have fewer : pair.2.length + cost ≤ meter.input.length := by
        rw [split, List.length_append]
        omega
      refine ⟨⟨front, split.symm⟩, ?_, fun _ _ => ?_⟩
      · simp only [Meter.level]
        omega
      · simp only [Meter.level]
        omega

theorem Spends.bind {reader : MeteredReader Failure Item Value}
    {next : Value → MeteredReader Failure Item Result} {cost later : Nat}
    (first : Spends weight reader cost) (second : ∀ value, Spends weight (next value) later) :
    Spends weight (reader >>= next) (cost + later) := by
  intro meter
  obtain ⟨taken, bounded, spent⟩ := first meter
  rcases run : reader meter with ⟨result, after⟩
  simp only [run] at taken bounded spent
  cases result with
  | error failure =>
      rw [bind_of_error run]
      exact ⟨taken, bounded, fun _ succeeded => by cases succeeded⟩
  | ok value =>
      rw [bind_of_ok run]
      obtain ⟨takenNext, boundedNext, spentNext⟩ := second value after
      have paid := spent value rfl
      refine ⟨takenNext.trans taken, boundedNext.trans bounded, fun result succeeded => ?_⟩
      have paidNext := spentNext result succeeded
      omega

/-- An item built is paid for by what was read before it. -/
theorem Spends.record {reader : MeteredReader Failure Item Value} {cost : Nat}
    (itemOf : Value → Item) (spends : Spends weight reader (weight + cost)) :
    Spends weight (record itemOf reader) cost := by
  intro meter
  obtain ⟨taken, bounded, spent⟩ := spends meter
  unfold ByteReader.record
  rcases run : reader meter with ⟨result, after⟩
  simp only [run] at taken bounded spent
  cases result with
  | error failure =>
      rw [bind_of_error run]
      exact ⟨taken, bounded, fun _ succeeded => by cases succeeded⟩
  | ok value =>
      rw [bind_of_ok run]
      have paid := spent value rfl
      have built : (Meter.mk after.input (after.built ++ [itemOf value])).level weight =
          after.level weight + weight := by
        simp [Meter.level, Nat.mul_add]
        omega
      have enough : (Meter.mk after.input (after.built ++ [itemOf value])).level weight + cost ≤
          meter.level weight := by omega
      exact ⟨taken, Nat.le_of_add_right_le enough, fun _ _ => enough⟩

theorem spends_many {reader : Nat → MeteredReader Failure Item Value}
    (each : ∀ index, Spends weight (reader index) 0) (count index : Nat) :
    Spends weight (manyMetered reader count index) 0 := by
  induction count generalizing index with
  | zero => exact spends_pure []
  | succ count inductionHypothesis =>
      change Spends weight _ (0 + (0 + 0))
      apply (each index).bind
      intro value
      apply (inductionHypothesis (index + 1)).bind
      intro values
      exact spends_pure (value :: values)

/-- A reader that starts with nothing built never builds more than its input
pays for. -/
theorem Spends.built_le {reader : MeteredReader Failure Item Value} {cost : Nat}
    (spends : Spends weight reader cost) (input : List UInt8) :
    weight * (reader ⟨input, []⟩).2.built.length ≤ input.length := by
  obtain ⟨-, bounded, -⟩ := spends ⟨input, []⟩
  simp only [Meter.level, List.length_nil, Nat.mul_zero, Nat.add_zero] at bounded
  omega

end Spending

end ByteReader
