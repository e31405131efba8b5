import Mathlib.Logic.Function.Basic
import Mathlib.Data.List.Basic

/-!
A directory of files and the steps a program changes it by.

Each step is atomic except a write, of which any part may have reached the
file when the program stops.  Replacing a file through a temporary one is
three such steps.
-/

namespace Directory

/-- The contents of the files that exist, by name. -/
abbrev Dir (Name : Type*) := Name → Option (List UInt8)

inductive FileStep (Name : Type*) where
  /-- Create an empty file, truncating one that is there. -/
  | create (name : Name)
  /-- Write the whole content of a created file. -/
  | write (name : Name) (bytes : List UInt8)
  /-- Move a file, replacing the target. -/
  | rename (source target : Name)
deriving DecidableEq

variable {Name : Type*}

/-- The same files, apart from hidden ones. -/
def Agrees (hidden : Set Name) (dir other : Dir Name) : Prop :=
  ∀ name ∉ hidden, dir name = other name

theorem Agrees.refl {hidden : Set Name} (dir : Dir Name) : Agrees hidden dir dir :=
  fun _ _ => rfl

theorem Agrees.trans {hidden : Set Name} {dir other third : Dir Name}
    (first : Agrees hidden dir other) (second : Agrees hidden other third) :
    Agrees hidden dir third :=
  fun name visible => (first name visible).trans (second name visible)

variable [DecidableEq Name]

/-- A renamed file; without a source nothing is moved. -/
def rename (dir : Dir Name) (source target : Name) : Dir Name :=
  match dir source with
  | none => dir
  | some content => Function.update (Function.update dir source none) target (some content)

namespace FileStep

/-- The directory after a finished step. -/
def apply (dir : Dir Name) : FileStep Name → Dir Name
  | create name => Function.update dir name (some [])
  | write name bytes => Function.update dir name (some bytes)
  | rename source target => Directory.rename dir source target

/-- The directory after a step that was cut off: of a write, the first bytes
may have reached the file. -/
def cut (dir : Dir Name) (written : Nat) : FileStep Name → Dir Name
  | write name bytes => Function.update dir name (some (bytes.take written))
  | _ => dir

end FileStep

/-- The directory after all the steps. -/
def execute (dir : Dir Name) (steps : List (FileStep Name)) : Dir Name :=
  steps.foldl FileStep.apply dir

/-- Replace a file through a temporary one. -/
def writeAtomic (tmp target : Name) (bytes : List UInt8) : List (FileStep Name) :=
  [.create tmp, .write tmp bytes, .rename tmp target]

@[simp]
theorem execute_nil (dir : Dir Name) : execute dir [] = dir := rfl

@[simp]
theorem execute_cons (dir : Dir Name) (step : FileStep Name) (rest : List (FileStep Name)) :
    execute dir (step :: rest) = execute (step.apply dir) rest := rfl

theorem execute_append (dir : Dir Name) (first second : List (FileStep Name)) :
    execute dir (first ++ second) = execute (execute dir first) second :=
  List.foldl_append

section Lookup

variable (dir : Dir Name) (name source target other : Name) (bytes : List UInt8)

theorem apply_create :
    FileStep.apply dir (.create name) other = if other = name then some [] else dir other := by
  simp [FileStep.apply, Function.update_apply]

theorem apply_write :
    FileStep.apply dir (.write name bytes) other =
      if other = name then some bytes else dir other := by
  simp [FileStep.apply, Function.update_apply]

variable {dir source}

theorem apply_rename {content : List UInt8} (found : dir source = some content) :
    FileStep.apply dir (.rename source target) other =
      if other = target then some content else if other = source then none else dir other := by
  simp [FileStep.apply, rename, found, Function.update_apply]

theorem apply_rename_of_absent (absent : dir source = none) :
    FileStep.apply dir (.rename source target) = dir := by
  simp [FileStep.apply, rename, absent]

variable (dir)

/-- The target holds the content, the temporary file is gone, and nothing
else changed. -/
theorem execute_writeAtomic (tmp target : Name) :
    execute dir (writeAtomic tmp target bytes) other =
      if other = target then some bytes else if other = tmp then none else dir other := by
  have written : FileStep.apply (FileStep.apply dir (.create tmp)) (.write tmp bytes) tmp =
      some bytes := by
    simp [apply_write]
  simp only [writeAtomic, execute_cons, execute_nil, apply_rename _ _ written, apply_write,
    apply_create]
  split
  next => rfl
  next =>
    split
    next => rfl
    next => rfl

end Lookup

section Interruption

variable (hidden : Set Name)

/-- Wherever the steps are interrupted, nothing or all of them can be seen. -/
def Atomic (steps : List (FileStep Name)) : Prop :=
  ∀ (dir : Dir Name) (done rest : List (FileStep Name)), steps = done ++ rest →
    Agrees hidden (execute dir done) dir ∨ Agrees hidden (execute dir done) (execute dir steps)

variable {hidden}

theorem atomic_nil : Atomic hidden ([] : List (FileStep Name)) := by
  intro dir done rest split
  obtain ⟨rfl, _⟩ := List.nil_eq_append_iff.mp split
  exact .inl (.refl dir)

theorem atomic_singleton (step : FileStep Name) : Atomic hidden [step] := by
  intro dir done rest split
  cases done with
  | nil => exact .inl (.refl dir)
  | cons first more =>
      simp only [List.cons_append, List.cons.injEq, List.nil_eq, List.append_eq_nil_iff] at split
      obtain ⟨rfl, rfl, rfl⟩ := split
      exact .inr (.refl _)

/-- A step nobody sees may be put before atomic steps. -/
theorem atomic_cons {step : FileStep Name} {steps : List (FileStep Name)}
    (unseen : ∀ dir, Agrees hidden (step.apply dir) dir) (atomic : Atomic hidden steps) :
    Atomic hidden (step :: steps) := by
  intro dir done rest split
  cases done with
  | nil => exact .inl (.refl dir)
  | cons first more =>
      obtain ⟨rfl, remaining⟩ := List.cons.inj split
      rcases atomic (step.apply dir) more rest remaining with none | all
      · exact .inl (none.trans (unseen dir))
      · exact .inr all

theorem atomic_writeAtomic {tmp : Name} (hides : tmp ∈ hidden) (target : Name)
    (bytes : List UInt8) : Atomic hidden (writeAtomic tmp target bytes) := by
  have apart : ∀ name ∉ hidden, name ≠ tmp := fun name visible same => visible (same ▸ hides)
  refine atomic_cons ?_ (atomic_cons ?_ (atomic_singleton _))
  · intro dir name visible
    simp [apply_create, apart name visible]
  · intro dir name visible
    simp [apply_write, apart name visible]

/-- Two atomic groups are interrupted before the first, between them or after
both. -/
theorem agrees_of_interrupted {first second done rest : List (FileStep Name)}
    (atomicFirst : Atomic hidden first) (atomicSecond : Atomic hidden second)
    (split : first ++ second = done ++ rest) (dir : Dir Name) :
    Agrees hidden (execute dir done) dir ∨
      Agrees hidden (execute dir done) (execute dir first) ∨
      Agrees hidden (execute dir done) (execute dir (first ++ second)) := by
  rcases List.append_eq_append_iff.mp split with ⟨more, rfl, later⟩ | ⟨more, inside, _⟩
  · rw [execute_append, execute_append]
    rcases atomicSecond (execute dir first) more rest later with none | all
    · exact .inr (.inl none)
    · exact .inr (.inr all)
  · rcases atomicFirst dir done more inside with none | all
    · exact .inl none
    · exact .inr (.inl all)

end Interruption

end Directory
