import Busyncr.Client.Target

/-!
The folder trees a backup captures: `collect_files`, `walk_dir` and the split
of a modification time.

File names are byte strings, as the operating system has them.  A directory
listing comes in any order; the walk puts it in name order.
-/

namespace Busyncr.Client

inductive BackupError where
  | badRoot (path : Bytes)
  | duplicateRootName (name : String)
  | nonUtf8Path (name : Bytes)
  | chunking
  | crypto (error : CryptoError)
  | manifest (error : ManifestError)
  | rpc (status : Daemon.Status)
  | badResponse (reason : String)
deriving DecidableEq

/-- A name in a directory, or the final component of a path. -/
structure FileName where
  bytes : Bytes
  nonempty : bytes ≠ []
  plain : 0x2f ∉ bytes
  notDot : bytes ≠ [0x2e]
  notDotDot : bytes ≠ [0x2e, 0x2e]
deriving DecidableEq

/-- A time stamp of the file system; the nanoseconds count up from the whole
second. -/
structure SystemTime where
  secs : Int64
  nanos : UInt32
  proper : nanos.toNat < 10 ^ 9
deriving DecidableEq

structure SourceFile where
  content : Bytes
  modified : Option SystemTime
  mode : UInt32
deriving DecidableEq

inductive SourceNode where
  | file (stored : SourceFile)
  | dir (entries : List (FileName × SourceNode))
  /-- A symlink, or anything else that is not captured. -/
  | other

/-- A configured root: its path, the final component of it, and what is
there. -/
structure Root where
  path : Bytes
  fileName : Option FileName
  node : Option SourceNode

/-- A file scheduled for capture, with its manifest path. -/
structure FileSpec where
  file : SourceFile
  rel : String

/-- Nanoseconds since the Unix epoch, negative before it. -/
def SystemTime.sinceEpoch (time : SystemTime) : Int :=
  time.secs.toInt * 10 ^ 9 + time.nanos.toNat

/-- Split a modification time into seconds since the epoch and nanoseconds. -/
def mtimeParts : Option SystemTime → Int64 × UInt32
  | none => (0, 0)
  | some modified =>
      if 0 ≤ modified.sinceEpoch then
        (Int64.ofInt (modified.sinceEpoch / 10 ^ 9),
          UInt32.ofNat (modified.sinceEpoch % 10 ^ 9).toNat)
      else
        let before := -modified.sinceEpoch
        let secs := Int64.ofInt (before / 10 ^ 9)
        let nanos := UInt32.ofNat (before % 10 ^ 9).toNat
        if nanos = 0 then (-secs, 0) else (-(secs + 1), 1000000000 - nanos)

/-- Entries in the order of their names. -/
def nameOrder {Value : Type} (entries : List (FileName × Value)) : List (FileName × Value) :=
  entries.mergeSort fun left right => (compare left.1.bytes right.1.bytes).isLE

/-- What the entries contributed, in order, up to the first error. -/
def joinWalks {Value : Type} :
    List (FileName × Except BackupError (List Value)) → Except BackupError (List Value)
  | [] => .ok []
  | (_, .error error) :: _ => .error error
  | (_, .ok specs) :: rest =>
      match joinWalks rest with
      | .error error => .error error
      | .ok others => .ok (specs ++ others)

mutual

/-- The regular files under a node, with `rel` as the manifest path of the
node.  Every entry of a directory is walked on its own; the results are then
joined in name order. -/
def walkDir (rel : String) : SourceNode → Except BackupError (List FileSpec)
  | .file stored => .ok [⟨stored, rel⟩]
  | .dir entries => joinWalks (nameOrder (walkEntries rel entries))
  | .other => .ok []

def walkEntries (rel : String) :
    List (FileName × SourceNode) → List (FileName × Except BackupError (List FileSpec))
  | [] => []
  | (name, node) :: rest =>
      (name,
        match fromUtf8? name.bytes with
        | none => .error (.nonUtf8Path name.bytes)
        | some text => walkDir (rel ++ "/" ++ text) node) :: walkEntries rel rest

end

/-- The name a root gives its files: its final component, if it is a
directory with one in UTF-8. -/
def rootName (root : Root) : Except BackupError (String × SourceNode) :=
  match root.node with
  | some (.dir entries) =>
      match root.fileName.bind fun name => fromUtf8? name.bytes with
      | some name => .ok (name, .dir entries)
      | none => .error (.badRoot root.path)
  | _ => .error (.badRoot root.path)

/-- The files of the roots left, with the names of the earlier ones. -/
def collectRoots (rootNames : List String) : List Root → Except BackupError (List FileSpec)
  | [] => .ok []
  | root :: rest =>
      match rootName root with
      | .error error => .error error
      | .ok (name, node) =>
          if name ∈ rootNames then .error (.duplicateRootName name)
          else
            match walkDir name node with
            | .error error => .error error
            | .ok specs =>
                match collectRoots (name :: rootNames) rest with
                | .error error => .error error
                | .ok others => .ok (specs ++ others)

/-- Walk every root and return the file list. -/
def collectFiles (roots : List Root) : Except BackupError (List FileSpec) := collectRoots [] roots

mutual

/-- No directory lists a name twice. -/
def SourceNode.WellFormed : SourceNode → Prop
  | .file _ => True
  | .dir entries => (entries.map Prod.fst).Nodup ∧ EntriesWellFormed entries
  | .other => True

def EntriesWellFormed : List (FileName × SourceNode) → Prop
  | [] => True
  | (_, node) :: rest => node.WellFormed ∧ EntriesWellFormed rest

end

/-- The captured time is the file's, before and after the epoch. -/
theorem mtimeParts_some (modified : SystemTime) :
    mtimeParts (some modified) = (modified.secs, modified.nanos) := by
  have proper := modified.proper
  have nanosBack : UInt32.ofNat modified.nanos.toNat = modified.nanos := UInt32.ofNat_toNat
  have offset : modified.sinceEpoch = modified.secs.toInt * 10 ^ 9 + modified.nanos.toNat := rfl
  unfold mtimeParts
  by_cases after : 0 ≤ modified.sinceEpoch
  · have secs : modified.sinceEpoch / 10 ^ 9 = modified.secs.toInt := by omega
    have nanos : (modified.sinceEpoch % 10 ^ 9).toNat = modified.nanos.toNat := by omega
    simp only [if_pos after, secs, nanos, nanosBack, Int64.ofInt_toInt]
  · by_cases whole : modified.nanos.toNat = 0
    · have secs : -modified.sinceEpoch / 10 ^ 9 = -modified.secs.toInt := by omega
      have nanos : (-modified.sinceEpoch % 10 ^ 9).toNat = 0 := by omega
      have zero : modified.nanos = 0 := by
        rw [← nanosBack, whole]
        rfl
      simp only [if_neg after, secs, nanos, Int64.ofInt_neg, Int64.ofInt_toInt, zero]
      simp
    · have secs : -modified.sinceEpoch / 10 ^ 9 = -(modified.secs.toInt + 1) := by omega
      have nanos : (-modified.sinceEpoch % 10 ^ 9).toNat = 10 ^ 9 - modified.nanos.toNat := by
        omega
      have back : (UInt32.ofNat (10 ^ 9 - modified.nanos.toNat)).toNat =
          10 ^ 9 - modified.nanos.toNat := by
        rw [UInt32.toNat_ofNat', Nat.mod_eq_of_lt (by omega)]
      have nonzero : UInt32.ofNat (10 ^ 9 - modified.nanos.toNat) ≠ 0 := by
        intro zero
        have vanishes := congrArg UInt32.toNat zero
        rw [back] at vanishes
        simp at vanishes
        omega
      have complement : 1000000000 - UInt32.ofNat (10 ^ 9 - modified.nanos.toNat) =
          modified.nanos := by
        apply UInt32.toNat_inj.mp
        rw [UInt32.toNat_sub_of_le _ _ (by rw [UInt32.le_iff_toNat_le, back]; simp), back]
        simp
        omega
      simp only [if_neg after, secs, nanos, if_neg nonzero, complement, Int64.ofInt_neg,
        Int64.ofInt_add, Int64.ofInt_toInt]
      have restored : -(-(modified.secs + 1) + 1) = modified.secs := by grind
      simpa using restored

theorem slash_mem_utf8Bytes {text : String} (slash : '/' ∈ text.toList) :
    0x2f ∈ utf8Bytes text := by
  rw [utf8Bytes_eq_flatMap]
  exact List.mem_flatMap.mpr ⟨'/', slash, by decide⟩

theorem FileName.eq_of_bytes {left right : FileName} (same : left.bytes = right.bytes) :
    left = right := by
  cases left
  cases right
  cases same
  rfl

/-- The text of a file name is an ordinary path component. -/
theorem FileName.normal {name : FileName} {text : String}
    (read : fromUtf8? name.bytes = some text) : isNormal text = true ∧ '/' ∉ text.toList := by
  have bytes := utf8Bytes_of_fromUtf8? read
  refine ⟨?_, fun slash => name.plain (bytes ▸ slash_mem_utf8Bytes slash)⟩
  have nonempty : text ≠ "" := by
    rintro rfl
    exact name.nonempty bytes.symm
  have notDot : text ≠ "." := by
    rintro rfl
    exact name.notDot bytes.symm
  have notDotDot : text ≠ ".." := by
    rintro rfl
    exact name.notDotDot bytes.symm
  simp [isNormal, nonempty, notDot, notDotDot]

/-- The manifest path lies below the base, by ordinary names. -/
def Under (base : List String) (spec : FileSpec) : Prop :=
  ∃ parts, splitPath spec.rel = base ++ parts ∧ ∀ part ∈ parts, isNormal part = true

/-- Neither path is the other or a directory above it. -/
def Apart (left right : FileSpec) : Prop :=
  ¬ splitPath left.rel <+: splitPath right.rel ∧ ¬ splitPath right.rel <+: splitPath left.rel

theorem Apart.symm {left right : FileSpec} (apart : Apart left right) : Apart right left :=
  ⟨apart.2, apart.1⟩

theorem Under.of_concat {base : List String} {text : String} {spec : FileSpec}
    (normal : isNormal text = true) (under : Under (base ++ [text]) spec) : Under base spec := by
  obtain ⟨parts, path, ordinary⟩ := under
  refine ⟨text :: parts, by simp [path], ?_⟩
  exact List.forall_mem_cons.mpr ⟨normal, ordinary⟩

/-- Files below different names of one directory are apart. -/
theorem apart_of_under {base : List String} {left right : String} {first second : FileSpec}
    (different : left ≠ right) (firstUnder : Under (base ++ [left]) first)
    (secondUnder : Under (base ++ [right]) second) : Apart first second := by
  obtain ⟨firstParts, firstPath, _⟩ := firstUnder
  obtain ⟨secondParts, secondPath, _⟩ := secondUnder
  have clash : ∀ {one other : String} {onward further : List String}, one ≠ other →
      ¬ base ++ [one] ++ onward <+: base ++ [other] ++ further := by
    rintro one other onward further distinct ⟨tail, joined⟩
    simp only [List.append_assoc, List.append_cancel_left_eq, List.cons_append,
      List.cons.injEq] at joined
    exact distinct joined.1
  unfold Apart
  rw [firstPath, secondPath]
  exact ⟨clash different, clash different.symm⟩

/-- The files of a walk: below its base and pairwise apart. -/
structure Walked (base : List String) (specs : List FileSpec) : Prop where
  under : ∀ spec ∈ specs, Under base spec
  apart : specs.Pairwise Apart

/-- Joining the walks of differently named entries. -/
theorem walked_joinWalks {base : List String}
    {walks : List (FileName × Except BackupError (List FileSpec))} {specs : List FileSpec}
    (names : (walks.map Prod.fst).Nodup)
    (each : ∀ walk ∈ walks, ∀ found, walk.2 = .ok found →
      ∃ text, fromUtf8? walk.1.bytes = some text ∧ Walked (base ++ [text]) found)
    (joined : joinWalks walks = .ok specs) :
    specs.Pairwise Apart ∧ ∀ spec ∈ specs, ∃ walk ∈ walks, ∃ text,
      fromUtf8? walk.1.bytes = some text ∧ Under (base ++ [text]) spec := by
  induction walks generalizing specs with
  | nil =>
      cases joined
      simp
  | cons walk rest inductionHypothesis =>
      obtain ⟨name, result⟩ := walk
      obtain ⟨fresh, restNames⟩ := List.nodup_cons.mp names
      obtain ⟨headEach, restEach⟩ := List.forall_mem_cons.mp each
      cases result with
      | error error => cases joined
      | ok found =>
          simp only [joinWalks] at joined
          split at joined
          next => cases joined
          next others joinedRest =>
            cases joined
            obtain ⟨text, read, walked⟩ := headEach found rfl
            obtain ⟨restApart, restUnder⟩ := inductionHypothesis restNames restEach joinedRest
            refine ⟨List.pairwise_append.mpr ⟨walked.apart, restApart, ?_⟩, ?_⟩
            · intro spec inFound other inOthers
              obtain ⟨walk, inRest, otherText, otherRead, otherUnder⟩ := restUnder other inOthers
              have different : text ≠ otherText := by
                rintro rfl
                apply fresh
                have sameName : walk.1 = name := by
                  apply FileName.eq_of_bytes
                  rw [← utf8Bytes_of_fromUtf8? read, utf8Bytes_of_fromUtf8? otherRead]
                exact List.mem_map.mpr ⟨walk, inRest, sameName⟩
              exact apart_of_under different (walked.under spec inFound) otherUnder
            · intro spec membership
              rcases List.mem_append.mp membership with inFound | inOthers
              · exact ⟨(name, .ok found), by simp, text, read, walked.under spec inFound⟩
              · obtain ⟨walk, inRest, onward⟩ := restUnder spec inOthers
                exact ⟨walk, by simp [inRest], onward⟩

theorem map_fst_walkEntries (rel : String) (entries : List (FileName × SourceNode)) :
    (walkEntries rel entries).map Prod.fst = entries.map Prod.fst := by
  induction entries with
  | nil => simp [walkEntries]
  | cons entry rest inductionHypothesis => simp [walkEntries, inductionHypothesis]

mutual

theorem walked_walkDir {rel : String} :
    (node : SourceNode) → {specs : List FileSpec} → node.WellFormed →
      walkDir rel node = .ok specs → Walked (splitPath rel) specs
  | .file stored, specs, _, walked => by
      simp only [walkDir] at walked
      cases walked
      exact ⟨by simp [Under], by simp⟩
  | .dir entries, specs, wellFormed, walked => by
      simp only [SourceNode.WellFormed] at wellFormed
      simp only [walkDir] at walked
      have perm : (nameOrder (walkEntries rel entries)).Perm (walkEntries rel entries) :=
        List.mergeSort_perm _ _
      have names : ((nameOrder (walkEntries rel entries)).map Prod.fst).Nodup := by
        rw [(perm.map Prod.fst).nodup_iff, map_fst_walkEntries]
        exact wellFormed.1
      obtain ⟨apart, under⟩ := walked_joinWalks names (fun walk inOrder found result =>
        walked_walkEntries entries wellFormed.2 walk (perm.mem_iff.mp inOrder) found result) walked
      refine ⟨fun spec membership => ?_, apart⟩
      obtain ⟨walk, _, text, read, below⟩ := under spec membership
      exact below.of_concat (FileName.normal read).1
  | .other, specs, _, walked => by
      simp only [walkDir] at walked
      cases walked
      exact ⟨by simp, by simp⟩

theorem walked_walkEntries {rel : String} :
    (entries : List (FileName × SourceNode)) → EntriesWellFormed entries →
      ∀ walk ∈ walkEntries rel entries, ∀ found, walk.2 = .ok found →
        ∃ text, fromUtf8? walk.1.bytes = some text ∧ Walked (splitPath rel ++ [text]) found
  | [], _ => by simp [walkEntries]
  | (name, node) :: rest, wellFormed => by
      simp only [EntriesWellFormed] at wellFormed
      simp only [walkEntries, List.forall_mem_cons]
      refine ⟨fun found result => ?_, walked_walkEntries rest wellFormed.2⟩
      cases read : fromUtf8? name.bytes with
      | none => simp [read] at result
      | some text =>
          simp only [read] at result
          refine ⟨text, rfl, ?_⟩
          rw [← splitPath_append (FileName.normal read).2]
          exact walked_walkDir node wellFormed.1 result

end

theorem rootName_ok {root : Root} {name : String} {node : SourceNode}
    (named : rootName root = .ok (name, node)) :
    root.node = some node ∧ ∃ fileName : FileName, fromUtf8? fileName.bytes = some name := by
  unfold rootName at named
  split at named
  next entries isDir =>
    split at named
    next text read =>
      cases named
      obtain ⟨fileName, _, decoded⟩ := Option.bind_eq_some_iff.mp read
      exact ⟨isDir, fileName, decoded⟩
    next => cases named
  next => cases named

/-- The roots are directory trees. -/
def RootsWellFormed (roots : List Root) : Prop :=
  ∀ root ∈ roots, ∀ node, root.node = some node → node.WellFormed

theorem walked_collectRoots {rootNames : List String} {roots : List Root} {specs : List FileSpec}
    (wellFormed : RootsWellFormed roots) (collected : collectRoots rootNames roots = .ok specs) :
    specs.Pairwise Apart ∧ ∀ spec ∈ specs, ∃ name, name ∉ rootNames ∧ isNormal name = true ∧
      Under [name] spec := by
  induction roots generalizing rootNames specs with
  | nil =>
      cases collected
      simp
  | cons root rest inductionHypothesis =>
      simp only [collectRoots] at collected
      split at collected
      next => cases collected
      next name node named =>
        split at collected
        next => cases collected
        next fresh =>
          split at collected
          next => cases collected
          next found walkedOk =>
            split at collected
            next => cases collected
            next others collectedRest =>
              cases collected
              obtain ⟨isDir, fileName, read⟩ := rootName_ok named
              obtain ⟨normal, plain⟩ := FileName.normal read
              have walked := walked_walkDir node (wellFormed root (by simp) node isDir) walkedOk
              rw [splitPath_of_plain plain] at walked
              obtain ⟨restApart, restUnder⟩ := inductionHypothesis
                (fun other membership => wellFormed other (by simp [membership])) collectedRest
              refine ⟨List.pairwise_append.mpr ⟨walked.apart, restApart, ?_⟩, ?_⟩
              · intro spec inFound other inOthers
                obtain ⟨otherName, unseen, _, otherUnder⟩ := restUnder other inOthers
                have different : name ≠ otherName := by
                  rintro rfl
                  simp at unseen
                have specUnder := walked.under spec inFound
                rw [← List.nil_append [name]] at specUnder
                rw [← List.nil_append [otherName]] at otherUnder
                exact apart_of_under different specUnder otherUnder
              · intro spec membership
                rcases List.mem_append.mp membership with inFound | inOthers
                · exact ⟨name, fresh, normal, walked.under spec inFound⟩
                · obtain ⟨otherName, unseen, onward⟩ := restUnder spec inOthers
                  exact ⟨otherName, fun seen => unseen (List.mem_cons_of_mem _ seen), onward⟩

/-- The collected paths are pairwise apart, and a restore accepts them as
they are. -/
theorem collectFiles_ok {roots : List Root} {specs : List FileSpec}
    (wellFormed : RootsWellFormed roots) (collected : collectFiles roots = .ok specs) :
    specs.Pairwise Apart ∧ ∀ spec ∈ specs, sanitizePath spec.rel = .ok (splitPath spec.rel) := by
  obtain ⟨apart, under⟩ := walked_collectRoots wellFormed collected
  refine ⟨apart, fun spec membership => ?_⟩
  obtain ⟨name, _, normal, parts, path, ordinary⟩ := under spec membership
  apply sanitizePath_of_normal
  rw [path]
  exact List.forall_mem_cons.mpr ⟨normal, ordinary⟩

end Busyncr.Client
