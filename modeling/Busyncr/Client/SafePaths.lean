import Busyncr.Client.Source
import Busyncr.Lib.UnixPath

/-!
`sanitize_path` on real paths: the buffer it pushes to, the components it
checks and the join under the restore target.

`sanitizePath` keeps the names apart; here they are joined and read back, and
a captured file is followed from its place under a root to the path a restore
gives it.
-/

namespace Busyncr.Client

open UnixPath

/-- The loop of `sanitize_path`: the buffer and whether a part was pushed. -/
def pushLoop (path : String) : PathBuf × Bool → List String → Except RestoreError (PathBuf × Bool)
  | state, [] => .ok state
  | (rel, _), part :: rest =>
      if part = "" ∨ part = "." ∨ part = ".." then .error (.unsafePath path)
      else pushLoop path (push rel (utf8Bytes part), true) rest

def Component.isNormal : Component → Bool
  | .normal _ => true
  | _ => false

/-- `sanitize_path` with its path buffer. -/
def sanitizePathBuf (path : String) : Except RestoreError PathBuf :=
  match pushLoop path ([], false) (splitPath path) with
  | .error error => .error error
  | .ok (rel, any) =>
      if any = false then .error (.unsafePath path)
      else if (components rel).all Component.isNormal then .ok rel
      else .error (.unsafePath path)

/-- The file at a place below a node. -/
def fileAt : List FileName → SourceNode → Option SourceFile
  | [], .file stored => some stored
  | name :: rest, .dir entries => (entries.lookup name).bind (fileAt rest)
  | _, _ => none

/-- A byte below 128 encodes its own character only. -/
theorem toNat_of_mem_utf8EncodeChar {char : Char} {byte : UInt8} (small : byte.toNat < 128)
    (listed : byte ∈ String.utf8EncodeChar char) : char.toNat = byte.toNat := by
  have value : char.val.toNat = char.toNat := rfl
  simp only [String.utf8EncodeChar, value] at listed
  split at listed
  next ascii =>
    rw [List.mem_singleton] at listed
    rw [listed, UInt8.toNat_ofNat']
    omega
  next =>
    exfalso
    split at listed
    next =>
      simp only [List.mem_cons, List.not_mem_nil, or_false] at listed
      rcases listed with rfl | rfl <;> rw [UInt8.toNat_ofNat'] at small <;> omega
    next =>
      split at listed
      next =>
        simp only [List.mem_cons, List.not_mem_nil, or_false] at listed
        rcases listed with rfl | rfl | rfl <;> rw [UInt8.toNat_ofNat'] at small <;> omega
      next =>
        simp only [List.mem_cons, List.not_mem_nil, or_false] at listed
        rcases listed with rfl | rfl | rfl | rfl <;> rw [UInt8.toNat_ofNat'] at small <;> omega

theorem separator_not_mem_utf8Bytes {text : String} (plain : '/' ∉ text.toList) :
    separator ∉ utf8Bytes text := by
  rw [utf8Bytes_eq_flatMap]
  intro listed
  obtain ⟨char, inText, encoded⟩ := List.mem_flatMap.mp listed
  have code := toNat_of_mem_utf8EncodeChar (by decide) encoded
  have slash : char = '/' := by
    rw [← Char.ofNat_toNat char, code]
    decide
  exact plain (slash ▸ inText)

theorem utf8Bytes_injective : Function.Injective utf8Bytes := by
  intro left right same
  have read := congrArg fromUtf8? same
  rw [fromUtf8?_utf8Bytes, fromUtf8?_utf8Bytes] at read
  exact Option.some.inj read

/-- An ordinary part of a manifest path is a name for the file system. -/
theorem isName_utf8Bytes {part : String} (normal : isNormal part = true)
    (plain : '/' ∉ part.toList) : IsName (utf8Bytes part) := by
  simp only [isNormal, Bool.and_eq_true, decide_eq_true_eq] at normal
  obtain ⟨⟨nonempty, notDot⟩, notDotDot⟩ := normal
  have empty : utf8Bytes "" = [] := by decide
  have single : utf8Bytes "." = [dot] := by decide
  have double : utf8Bytes ".." = [dot, dot] := by decide
  refine ⟨?_, ?_, ?_, separator_not_mem_utf8Bytes plain⟩
  · rw [← empty]
    exact fun same => nonempty (utf8Bytes_injective same)
  · rw [← single]
    exact fun same => notDot (utf8Bytes_injective same)
  · rw [← double]
    exact fun same => notDotDot (utf8Bytes_injective same)

theorem plain_of_mem_splitPath {path part : String} (listed : part ∈ splitPath path) :
    '/' ∉ part.toList := by
  obtain ⟨chars, split, rfl⟩ := List.mem_map.mp listed
  rw [String.toList_ofList]
  exact not_mem_of_mem_splitOn split

/-- The loop does to the buffer what `pushParts` does to the names. -/
theorem pushLoop_eq (path : String) (names parts : List String) (any : Bool) :
    pushLoop path ((names.map utf8Bytes).foldl push [], any) parts =
      (pushParts path names parts).map fun result =>
        ((result.map utf8Bytes).foldl push [], any || !parts.isEmpty) := by
  induction parts generalizing names any with
  | nil => simp [pushLoop, pushParts, Except.map]
  | cons part rest inductionHypothesis =>
      by_cases special : part = "" ∨ part = "." ∨ part = ".."
      · simp [pushLoop, pushParts, special, Except.map]
      · have onward := inductionHypothesis (names ++ [part]) true
        simp only [List.map_append, List.map_cons, List.map_nil, List.foldl_append,
          List.foldl_cons, List.foldl_nil] at onward
        simp [pushLoop, pushParts, special, onward]

theorem components_of_parts {path : String}
    (normal : ∀ part ∈ splitPath path, isNormal part = true) :
    components (((splitPath path).map utf8Bytes).foldl push []) =
      (splitPath path).map fun part => .normal (utf8Bytes part) := by
  have named : ∀ name ∈ (splitPath path).map utf8Bytes, IsName name := by
    intro name listed
    obtain ⟨part, inPath, rfl⟩ := List.mem_map.mp listed
    exact isName_utf8Bytes (normal part inPath) (plain_of_mem_splitPath inPath)
  rw [components_foldl_push [] named]
  simp

/-- The path buffer joins the names of `sanitizePath`. -/
theorem sanitizePathBuf_eq (path : String) :
    sanitizePathBuf path =
      (sanitizePath path).map fun names => (names.map utf8Bytes).foldl push [] := by
  have looped := pushLoop_eq path [] (splitPath path) false
  have nonempty : splitPath path ≠ [] := by simp [splitPath]
  simp only [List.map_nil, List.foldl_nil] at looped
  rw [sanitizePathBuf, sanitizePath, looped]
  cases pushed : pushParts path [] (splitPath path) with
  | error error => rfl
  | ok names =>
      obtain ⟨joined, normal⟩ := pushParts_ok pushed
      rw [List.nil_append] at joined
      subst joined
      have all : (splitPath path).all isNormal = true := List.all_eq_true.mpr normal
      simp [Except.map, nonempty, all, components_of_parts normal, Component.isNormal,
        Function.comp_def]

theorem special_iff {part : String} :
    isNormal part = true ↔ part ≠ "" ∧ part ≠ "." ∧ part ≠ ".." := by
  simp [isNormal, and_assoc]

/-- Exactly the paths of ordinary parts are accepted, and keep their parts. -/
theorem sanitizePathBuf_ok_iff {path : String} {rel : PathBuf} :
    sanitizePathBuf path = .ok rel ↔
      (∀ part ∈ splitPath path, isNormal part = true) ∧
        rel = ((splitPath path).map utf8Bytes).foldl push [] := by
  rw [sanitizePathBuf_eq]
  constructor
  · intro accepted
    cases sanitized : sanitizePath path with
    | error error =>
        rw [sanitized] at accepted
        cases accepted
    | ok names =>
        rw [sanitized] at accepted
        cases accepted
        obtain ⟨rfl, normal⟩ := sanitizePath_ok sanitized
        exact ⟨normal, rfl⟩
  · rintro ⟨normal, rfl⟩
    rw [sanitizePath_of_normal normal]
    rfl

theorem components_of_sanitized {path : String} {rel : PathBuf}
    (accepted : sanitizePathBuf path = .ok rel) :
    components rel = (splitPath path).map fun part => .normal (utf8Bytes part) := by
  obtain ⟨normal, rfl⟩ := sanitizePathBuf_ok_iff.mp accepted
  exact components_of_parts normal

theorem strictlyBelow_of_sanitized {path : String} {rel : PathBuf} (target : PathBuf)
    (accepted : sanitizePathBuf path = .ok rel) : StrictlyBelow target (push target rel) := by
  have nonempty : (splitPath path).map utf8Bytes ≠ [] := by simp [splitPath]
  apply strictlyBelow_push target nonempty
  rw [components_of_sanitized accepted, List.map_map]
  rfl

/-- Accepted paths with the same components are the same. -/
theorem eq_of_components {left right : String} {leftRel rightRel : PathBuf}
    (leftAccepted : sanitizePathBuf left = .ok leftRel)
    (rightAccepted : sanitizePathBuf right = .ok rightRel)
    (same : components leftRel = components rightRel) : left = right := by
  rw [components_of_sanitized leftAccepted, components_of_sanitized rightAccepted] at same
  apply splitPath_injective
  apply List.map_injective_iff.mpr _ same
  intro one other equal
  exact utf8Bytes_injective (Component.normal.inj equal)

theorem mem_joinWalks {Value : Type} {walks : List (FileName × Except BackupError (List Value))}
    {values : List Value} (joined : joinWalks walks = .ok values) {value : Value}
    (listed : value ∈ values) :
    ∃ walk ∈ walks, ∃ found, walk.2 = .ok found ∧ value ∈ found := by
  induction walks generalizing values with
  | nil =>
      cases joined
      cases listed
  | cons walk rest inductionHypothesis =>
      obtain ⟨name, result⟩ := walk
      cases result with
      | error error => cases joined
      | ok found =>
          simp only [joinWalks] at joined
          split at joined
          next => cases joined
          next others joinedRest =>
            cases joined
            rcases List.mem_append.mp listed with here | later
            · exact ⟨(name, .ok found), by simp, found, rfl, here⟩
            · obtain ⟨walk, inRest, onward⟩ := inductionHypothesis joinedRest later
              exact ⟨walk, by simp [inRest], onward⟩

theorem lookup_of_mem {entries : List (FileName × SourceNode)} {name : FileName}
    {node : SourceNode} (names : (entries.map Prod.fst).Nodup)
    (listed : (name, node) ∈ entries) : entries.lookup name = some node := by
  induction entries with
  | nil => cases listed
  | cons entry rest inductionHypothesis =>
      obtain ⟨head, headNode⟩ := entry
      obtain ⟨fresh, restNames⟩ := List.nodup_cons.mp names
      rcases List.mem_cons.mp listed with here | later
      · cases here
        simp
      · have other : (name == head) = false := by
          rw [beq_eq_false_iff_ne]
          rintro rfl
          exact fresh (List.mem_map.mpr ⟨(name, node), later, rfl⟩)
        rw [List.lookup_cons, other]
        exact inductionHypothesis restNames later

/-- The captured file lies below the node under the names its manifest path
adds to the base. -/
def PlacedUnder (base : List String) (node : SourceNode) (spec : FileSpec) : Prop :=
  ∃ (names : List FileName) (texts : List String),
    fileAt names node = some spec.file ∧ splitPath spec.rel = base ++ texts ∧
      texts.map utf8Bytes = names.map FileName.bytes

mutual

theorem placed_walkDir {rel : String} :
    (node : SourceNode) → {specs : List FileSpec} → node.WellFormed →
      walkDir rel node = .ok specs → ∀ spec ∈ specs, PlacedUnder (splitPath rel) node spec
  | .file stored, specs, _, walked => by
      simp only [walkDir] at walked
      cases walked
      intro spec listed
      rw [List.mem_singleton] at listed
      subst listed
      exact ⟨[], [], rfl, by simp, rfl⟩
  | .dir entries, specs, wellFormed, walked => by
      simp only [SourceNode.WellFormed] at wellFormed
      simp only [walkDir] at walked
      intro spec listed
      obtain ⟨walk, inOrder, found, result, inFound⟩ := mem_joinWalks walked listed
      have inEntries : walk ∈ walkEntries rel entries :=
        (List.mergeSort_perm _ _).mem_iff.mp inOrder
      obtain ⟨node, text, inNode, read, placed⟩ :=
        placed_walkEntries entries wellFormed.2 walk inEntries found result
      obtain ⟨names, texts, holds, path, bytes⟩ := placed spec inFound
      refine ⟨walk.1 :: names, text :: texts, ?_, by simp [path], ?_⟩
      · rw [fileAt, lookup_of_mem wellFormed.1 inNode]
        exact holds
      · simp [bytes, utf8Bytes_of_fromUtf8? read]
  | .other, specs, _, walked => by
      simp only [walkDir] at walked
      cases walked
      simp

theorem placed_walkEntries {rel : String} :
    (entries : List (FileName × SourceNode)) → EntriesWellFormed entries →
      ∀ walk ∈ walkEntries rel entries, ∀ found, walk.2 = .ok found →
        ∃ node text, (walk.1, node) ∈ entries ∧ fromUtf8? walk.1.bytes = some text ∧
          ∀ spec ∈ found, PlacedUnder (splitPath rel ++ [text]) node spec
  | [], _ => by simp [walkEntries]
  | (name, node) :: rest, wellFormed => by
      simp only [EntriesWellFormed] at wellFormed
      simp only [walkEntries, List.forall_mem_cons]
      constructor
      · intro found result
        cases read : fromUtf8? name.bytes with
        | none => simp [read] at result
        | some text =>
            simp only [read] at result
            refine ⟨node, text, by simp, rfl, ?_⟩
            rw [← splitPath_append (FileName.normal read).2]
            exact placed_walkDir node wellFormed.1 result
      · intro walk inRest found result
        obtain ⟨below, text, inNode, onward⟩ :=
          placed_walkEntries rest wellFormed.2 walk inRest found result
        exact ⟨below, text, by simp [inNode], onward⟩

end

/-- The file lies under a root, at the location spelled by the root's name
and the names on the way down. -/
def LiesAt (roots : List Root) (file : SourceFile) (location : List Bytes) : Prop :=
  ∃ root ∈ roots, ∃ (node : SourceNode) (rootFile : FileName) (names : List FileName),
    root.node = some node ∧ root.fileName = some rootFile ∧ fileAt names node = some file ∧
      location = (rootFile :: names).map FileName.bytes

theorem rootName_fileName {root : Root} {name : String} {node : SourceNode}
    (named : rootName root = .ok (name, node)) :
    ∃ fileName, root.fileName = some fileName ∧ fromUtf8? fileName.bytes = some name := by
  unfold rootName at named
  split at named
  next entries isDir =>
    split at named
    next text read =>
      cases named
      exact Option.bind_eq_some_iff.mp read
    next => cases named
  next => cases named

theorem placed_collectRoots {rootNames : List String} {roots : List Root} {specs : List FileSpec}
    (wellFormed : RootsWellFormed roots) (collected : collectRoots rootNames roots = .ok specs) :
    ∀ spec ∈ specs, LiesAt roots spec.file ((splitPath spec.rel).map utf8Bytes) := by
  induction roots generalizing rootNames specs with
  | nil =>
      cases collected
      simp
  | cons root rest inductionHypothesis =>
      simp only [collectRoots] at collected
      split at collected
      next => cases collected
      next name node named =>
        split at collected
        next => cases collected
        next fresh =>
          split at collected
          next => cases collected
          next found walkedOk =>
            split at collected
            next => cases collected
            next others collectedRest =>
              cases collected
              obtain ⟨isDir, _⟩ := rootName_ok named
              obtain ⟨rootFile, final, read⟩ := rootName_fileName named
              intro spec listed
              rcases List.mem_append.mp listed with here | later
              · obtain ⟨names, texts, holds, path, bytes⟩ :=
                  placed_walkDir node (wellFormed root (by simp) node isDir) walkedOk spec here
                refine ⟨root, by simp, node, rootFile, names, isDir, final, holds, ?_⟩
                rw [path, splitPath_of_plain (FileName.normal read).2]
                simp [bytes, utf8Bytes_of_fromUtf8? read]
              · obtain ⟨other, inRest, onward⟩ := inductionHypothesis
                  (fun other inRest => wellFormed other (by simp [inRest])) collectedRest spec later
                exact ⟨other, by simp [inRest], onward⟩

/-- Restore paths stay below the target and do not collide: exactly the paths
of ordinary parts are accepted and keep their parts, and every captured path
leads back to where its file was read. -/
theorem restore_paths_are_safe :
    (∀ path : String, (∃ rel, sanitizePathBuf path = .ok rel) ↔
      ∀ part ∈ splitPath path, part ≠ "" ∧ part ≠ "." ∧ part ≠ "..") ∧
    (∀ (path : String) (rel : PathBuf), sanitizePathBuf path = .ok rel →
      components rel = ((splitPath path).map fun part => .normal (utf8Bytes part)) ∧
        ∀ target, StrictlyBelow target (push target rel)) ∧
    (∀ (left right : String) (leftRel rightRel : PathBuf),
      sanitizePathBuf left = .ok leftRel → sanitizePathBuf right = .ok rightRel →
        components leftRel = components rightRel → left = right) ∧
    ∀ (roots : List Root) (specs : List FileSpec), RootsWellFormed roots →
      collectFiles roots = .ok specs →
        (∀ spec ∈ specs, ∃ rel location, sanitizePathBuf spec.rel = .ok rel ∧
          components rel = location.map Component.normal ∧ LiesAt roots spec.file location) ∧
        (specs.map FileSpec.rel).Nodup := by
  refine ⟨?_, ?_, ?_, ?_⟩
  · intro path
    simp only [sanitizePathBuf_ok_iff, exists_and_left, exists_eq, and_true, special_iff]
  · intro path rel accepted
    exact ⟨components_of_sanitized accepted,
      fun target => strictlyBelow_of_sanitized target accepted⟩
  · intro left right leftRel rightRel leftAccepted rightAccepted
    exact eq_of_components leftAccepted rightAccepted
  · intro roots specs wellFormed collected
    obtain ⟨apart, sanitized⟩ := collectFiles_ok wellFormed collected
    constructor
    · intro spec listed
      have accepted : sanitizePathBuf spec.rel =
          .ok (((splitPath spec.rel).map utf8Bytes).foldl push []) := by
        rw [sanitizePathBuf_eq, sanitized spec listed]
        rfl
      refine ⟨_, _, accepted, ?_, placed_collectRoots wellFormed collected spec listed⟩
      rw [components_of_sanitized accepted, List.map_map]
      rfl
    · rw [List.Nodup, List.pairwise_map]
      apply apart.imp
      intro left right separate same
      apply separate.1
      exact same ▸ List.prefix_refl _

end Busyncr.Client
