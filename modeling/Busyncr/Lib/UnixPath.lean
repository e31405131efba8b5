import Mathlib.Data.List.Basic

/-!
Paths as Unix programs build and read them: byte strings, `push` with its
replacement by an absolute path, and the components a path is compared by.

Repeated separators and single dots inside a path count for nothing; a
leading dot and every double dot stay components of their own.
-/

namespace UnixPath

abbrev PathBuf := List UInt8

def separator : UInt8 := 0x2f

def dot : UInt8 := 0x2e

inductive Component where
  | rootDir
  | curDir
  | parentDir
  | normal (name : List UInt8)
deriving DecidableEq

def isAbsolute (path : PathBuf) : Bool := path.head? = some separator

/-- What stands between the separators. -/
def parts (path : PathBuf) : List (List UInt8) := path.splitOn separator

/-- The component of a part, if it has one. -/
def component? (part : List UInt8) : Option Component :=
  if part = [] ∨ part = [dot] then none
  else if part = [dot, dot] then some .parentDir
  else some (.normal part)

/-- The component only the beginning of a path can have. -/
def leading (path : PathBuf) : List Component :=
  if isAbsolute path then [.rootDir]
  else if (parts path).head? = some [dot] then [.curDir]
  else []

/-- `Path::components`. -/
def components (path : PathBuf) : List Component :=
  leading path ++ (parts path).filterMap component?

/-- `PathBuf::push`: an absolute path replaces the buffer. -/
def push (base path : PathBuf) : PathBuf :=
  if isAbsolute path then path
  else if base ≠ [] ∧ base.getLast? ≠ some separator then base ++ separator :: path
  else base ++ path

/-- An ordinary name of one part. -/
structure IsName (name : List UInt8) : Prop where
  nonempty : name ≠ []
  notDot : name ≠ [dot]
  notDotDot : name ≠ [dot, dot]
  plain : separator ∉ name

/-- The path names something under the base, by ordinary names only. -/
def StrictlyBelow (base path : PathBuf) : Prop :=
  ∃ names ≠ [], components path = components base ++ names.map Component.normal

theorem not_mem_of_mem_splitOn {Unit : Type} [BEq Unit] [LawfulBEq Unit] {mark : Unit}
    {units part : List Unit} (listed : part ∈ units.splitOn mark) : mark ∉ part := by
  induction units generalizing part with
  | nil =>
      rw [List.splitOn_nil, List.mem_singleton] at listed
      simp [listed]
  | cons unit rest inductionHypothesis =>
      rw [List.splitOn_cons_eq_if_modifyHead] at listed
      split at listed
      next =>
        rcases List.mem_cons.mp listed with rfl | later
        · simp
        · exact inductionHypothesis later
      next other =>
        have different : mark ≠ unit := by
          rintro rfl
          simp at other
        obtain ⟨first, others, split⟩ := List.exists_cons_of_ne_nil (List.splitOn_ne_nil mark rest)
        rw [split, List.modifyHead_cons] at listed
        rcases List.mem_cons.mp listed with rfl | later
        · simp [different, inductionHypothesis (split ▸ List.mem_cons_self)]
        · exact inductionHypothesis (split ▸ List.mem_cons_of_mem first later)

@[simp]
theorem components_nil : components [] = [] := by decide

theorem parts_ne_nil (path : PathBuf) : parts path ≠ [] := by
  simp [parts]

theorem parts_append_separator (base path : PathBuf) :
    parts (base ++ separator :: path) = parts base ++ parts path :=
  List.splitOn_append_cons_self base path

theorem isAbsolute_append {base : PathBuf} (nonempty : base ≠ []) (path : PathBuf) :
    isAbsolute (base ++ path) = isAbsolute base := by
  cases base with
  | nil => exact absurd rfl nonempty
  | cons byte rest => rfl

theorem isAbsolute_of_leading {path : PathBuf} (none : leading path = []) :
    isAbsolute path = false := by
  cases absolute : isAbsolute path with
  | false => rfl
  | true => simp [leading, absolute] at none

theorem head?_parts_append (base : PathBuf) (rest : List (List UInt8)) :
    (parts base ++ rest).head? = (parts base).head? :=
  List.head?_append_of_ne_nil _ (parts_ne_nil base)

/-- Pushing behind a separator keeps the beginning. -/
theorem leading_append_separator {base : PathBuf} (nonempty : base ≠ []) (path : PathBuf) :
    leading (base ++ separator :: path) = leading base := by
  simp only [leading, isAbsolute_append nonempty, parts_append_separator, head?_parts_append]

theorem leading_closed (base path : PathBuf) :
    leading (base ++ separator :: path) = leading (base ++ [separator]) := by
  have absolute : isAbsolute (base ++ separator :: path) = isAbsolute (base ++ [separator]) := by
    cases base with
    | nil => rfl
    | cons byte rest => rfl
  simp only [leading, absolute, parts_append_separator, head?_parts_append]

/-- Pushing a path that begins with a name appends its components. -/
theorem components_push {path : PathBuf} (base : PathBuf) (plain : leading path = []) :
    components (push base path) = components base ++ components path := by
  have relative := isAbsolute_of_leading plain
  by_cases empty : base = []
  · simp [push, relative, empty]
  · by_cases closed : base.getLast? = some separator
    · obtain ⟨front, rfl⟩ := List.getLast?_eq_some_iff.mp closed
      have joined : push (front ++ [separator]) path = front ++ separator :: path := by
        simp [push, relative]
      have bare : (parts []).filterMap component? = [] := by decide
      rw [joined, components, components, components, plain, leading_closed,
        parts_append_separator, parts_append_separator front []]
      simp [bare]
    · have joined : push base path = base ++ separator :: path := by
        simp [push, relative, empty, closed]
      rw [joined, components, components, components, plain,
        leading_append_separator empty, parts_append_separator]
      simp

theorem IsName.leading {name : List UInt8} (named : IsName name) : leading name = [] := by
  have relative : isAbsolute name = false := by
    cases name with
    | nil => rfl
    | cons byte rest =>
        have other : byte ≠ separator := by
          rintro rfl
          exact named.plain (by simp)
        simp [isAbsolute, other]
  have only : parts name = [name] := List.splitOn_eq_singleton named.plain
  simp [UnixPath.leading, relative, only, named.notDot]

theorem IsName.components {name : List UInt8} (named : IsName name) :
    components name = [.normal name] := by
  have only : parts name = [name] := List.splitOn_eq_singleton named.plain
  simp [UnixPath.components, named.leading, only, component?, named.nonempty, named.notDot,
    named.notDotDot]

/-- Names pushed one after another are the components behind the base. -/
theorem components_foldl_push {names : List (List UInt8)} (base : PathBuf)
    (named : ∀ name ∈ names, IsName name) :
    components (names.foldl push base) = components base ++ names.map Component.normal := by
  induction names generalizing base with
  | nil => simp
  | cons name rest inductionHypothesis =>
      obtain ⟨head, tail⟩ := List.forall_mem_cons.mp named
      rw [List.foldl_cons, inductionHypothesis (push base name) tail,
        components_push base head.leading, head.components]
      simp

theorem leading_of_components {path : PathBuf} {names : List (List UInt8)}
    (normal : components path = names.map Component.normal) : leading path = [] := by
  have inside : ∀ component ∈ leading path, ∃ name, component = .normal name := by
    intro component first
    have listed : component ∈ components path := List.mem_append_left _ first
    rw [normal] at listed
    obtain ⟨name, _, equal⟩ := List.mem_map.mp listed
    exact ⟨name, equal.symm⟩
  unfold leading at inside ⊢
  split
  next absolute =>
    rw [if_pos absolute] at inside
    simpa using inside .rootDir (by simp)
  next relative =>
    rw [if_neg relative] at inside
    split
    next dotted =>
      rw [if_pos dotted] at inside
      simpa using inside .curDir (by simp)
    next => rfl

/-- Joining a path of ordinary names stays below whatever it is joined to. -/
theorem strictlyBelow_push {path : PathBuf} {names : List (List UInt8)} (base : PathBuf)
    (nonempty : names ≠ []) (normal : components path = names.map Component.normal) :
    StrictlyBelow base (push base path) :=
  ⟨names, nonempty, by rw [components_push base (leading_of_components normal), normal]⟩

end UnixPath
