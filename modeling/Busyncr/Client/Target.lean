import Busyncr.Core.Compression
import Busyncr.Core.Crypto
import Busyncr.Core.Manifest
import Busyncr.Daemon.Service
import Busyncr.Lib.OrderedTable

/-!
The directory a snapshot is restored into: path sanitising and the file
operations of the restore.

Paths are lists of names below the target, compared as Unix compares them.
An operation fails when a name on the way is already taken by a node of the
other kind, and otherwise as the file system decides.
-/

namespace Busyncr.Client

open Std

inductive RestoreError where
  | io (path : List String)
  | targetNotEmpty
  | unsafePath (path : String)
  | rpc (status : Daemon.Status)
  | badResponse (reason : String)
  | manifest (error : ManifestError)
  | crypto (error : CryptoError)
  | chunkIdMismatch (chunk actual : ChunkId)
  | codecDecode (chunk : ChunkId) (source : CompressionError)
  | sizeMismatch (path : String) (expected actual : UInt64)
deriving DecidableEq

/-- The parts of a `/`-separated path (`str::split`). -/
def splitPath (path : String) : List String := (path.toList.splitOn '/').map String.ofList

/-- Whether a path component is an ordinary name. -/
def isNormal (part : String) : Bool := part ≠ "" && part ≠ "." && part ≠ ".."

/-- Push the parts one after another; a part that is no ordinary name makes
the path unsafe. -/
def pushParts (path : String) : List String → List String → Except RestoreError (List String)
  | rel, [] => .ok rel
  | rel, part :: rest =>
      if part = "" ∨ part = "." ∨ part = ".." then .error (.unsafePath path)
      else pushParts path (rel ++ [part]) rest

/-- Turn a manifest path into names below the target. -/
def sanitizePath (path : String) : Except RestoreError (List String) :=
  match pushParts path [] (splitPath path) with
  | .error error => .error error
  | .ok rel =>
      if rel = [] then .error (.unsafePath path)
      else if rel.all isNormal then .ok rel
      else .error (.unsafePath path)

/-- A file under the target: its bytes, and the times and mode once set. -/
structure RestoredFile where
  content : Bytes
  mtime : Option (Int64 × UInt32)
  mode : Option UInt32
deriving DecidableEq

inductive Node where
  | dir
  | file (stored : RestoredFile)
deriving DecidableEq

/-- What lies below the target directory. -/
abbrev Tree := ExtTreeMap (List String) Node

inductive FileOp where
  | createDirAll
  | create
  | write
  | sync
  | setMtime
  | setMode
deriving DecidableEq

/-- What the platform decides: whether an operation on a path succeeds, and
whether the volume holds a tree. -/
structure FileSystem where
  permits : FileOp → List String → Bool
  stores : Tree → Bool

def Node.bytes : Node → Nat
  | .dir => 0
  | .file stored => stored.content.length

/-- The file bytes of a tree. -/
def contentBytes (tree : Tree) : Nat := OrderedTable.total Node.bytes tree

/-- File offsets and volumes are 64-bit. -/
def FileSystem.Addressable (fs : FileSystem) : Prop :=
  ∀ tree, fs.stores tree = true → contentBytes tree < 2 ^ 64

/-- The restore target before the run. -/
inductive Target where
  | absent
  | notDir
  | dir (entries : Tree)

/-- The target must be an empty directory, or is created as one. -/
def ensureEmptyTarget (fs : FileSystem) : Target → Except RestoreError Tree
  | .absent => if fs.permits .createDirAll [] then .ok ∅ else .error (.io [])
  | .notDir => .error .targetNotEmpty
  | .dir entries => if entries.isEmpty then .ok entries else .error .targetNotEmpty

/-- Create the directories of a path that are missing, from the top. -/
def createDirs (tree : Tree) (above : List String) : List String → Option Tree
  | [] => some tree
  | name :: rest =>
      match tree[above ++ [name]]? with
      | some (.file _) => none
      | some .dir => createDirs tree (above ++ [name]) rest
      | none => createDirs (tree.insert (above ++ [name]) .dir) (above ++ [name]) rest

section Operations

variable (fs : FileSystem)

def createDirAll (tree : Tree) (path : List String) : Except RestoreError Tree :=
  if fs.permits .createDirAll path then
    match createDirs tree [] path with
    | some next => .ok next
    | none => .error (.io path)
  else .error (.io path)

/-- Create an empty file, truncating one that is there. -/
def createFile (tree : Tree) (path : List String) : Except RestoreError Tree :=
  if fs.permits .create path then
    match tree[path]? with
    | some .dir => .error (.io path)
    | _ => .ok (tree.insert path (.file ⟨[], none, none⟩))
  else .error (.io path)

/-- Change the open file at a path. -/
def updateFile (op : FileOp) (tree : Tree) (path : List String)
    (change : RestoredFile → RestoredFile) : Except RestoreError Tree :=
  if fs.permits op path then
    match tree[path]? with
    | some (.file file) =>
        let next := tree.insert path (.file (change file))
        if fs.stores next then .ok next else .error (.io path)
    | _ => .error (.io path)
  else .error (.io path)

def writeAll (tree : Tree) (path : List String) (bytes : Bytes) : Except RestoreError Tree :=
  updateFile fs .write tree path fun file => { file with content := file.content ++ bytes }

def syncAll (tree : Tree) (path : List String) : Except RestoreError Tree :=
  updateFile fs .sync tree path id

def setFileMtime (tree : Tree) (path : List String) (mtime : Int64 × UInt32) :
    Except RestoreError Tree :=
  updateFile fs .setMtime tree path fun file => { file with mtime := some mtime }

def setMode (tree : Tree) (path : List String) (mode : UInt32) : Except RestoreError Tree :=
  updateFile fs .setMode tree path fun file => { file with mode := some mode }

end Operations

theorem pushParts_ok {path : String} {parts rel result : List String}
    (pushed : pushParts path rel parts = .ok result) :
    result = rel ++ parts ∧ ∀ part ∈ parts, isNormal part = true := by
  induction parts generalizing rel with
  | nil =>
      cases pushed
      simp
  | cons part rest inductionHypothesis =>
      simp only [pushParts] at pushed
      split at pushed
      next => cases pushed
      next ordinary =>
        obtain ⟨joined, normal⟩ := inductionHypothesis pushed
        refine ⟨by simp [joined], ?_⟩
        simp only [not_or] at ordinary
        simp only [List.mem_cons, forall_eq_or_imp]
        exact ⟨by simp [isNormal, ordinary], normal⟩

theorem splitPath_injective : Function.Injective splitPath := by
  intro left right same
  have parts : left.toList.splitOn '/' = right.toList.splitOn '/' := by
    apply List.map_injective_iff.mpr _ same
    intro first second equality
    exact String.ofList_inj.mp equality
  have joined := congrArg (List.intercalate ['/']) parts
  rw [List.intercalate_splitOn, List.intercalate_splitOn] at joined
  exact String.toList_inj.mp joined

theorem pushParts_of_normal (path : String) {parts : List String} (rel : List String)
    (normal : ∀ part ∈ parts, isNormal part = true) :
    pushParts path rel parts = .ok (rel ++ parts) := by
  induction parts generalizing rel with
  | nil => simp [pushParts]
  | cons part rest inductionHypothesis =>
      obtain ⟨head, tail⟩ := List.forall_mem_cons.mp normal
      have ordinary : ¬ (part = "" ∨ part = "." ∨ part = "..") := by
        simpa [isNormal, not_or, and_assoc] using head
      rw [pushParts, if_neg ordinary, inductionHypothesis (rel ++ [part]) tail]
      simp

/-- A path of ordinary names is accepted as it is. -/
theorem sanitizePath_of_normal {path : String}
    (normal : ∀ part ∈ splitPath path, isNormal part = true) :
    sanitizePath path = .ok (splitPath path) := by
  have nonempty : splitPath path ≠ [] := by simp [splitPath]
  rw [sanitizePath, pushParts_of_normal path [] normal]
  simp only [List.nil_append]
  rw [if_neg nonempty, if_pos (List.all_eq_true.mpr normal)]

/-- A name below a path is one more part of it. -/
theorem splitPath_append {rel text : String} (plain : '/' ∉ text.toList) :
    splitPath (rel ++ "/" ++ text) = splitPath rel ++ [text] := by
  have parts : (rel ++ "/" ++ text).toList = rel.toList ++ '/' :: text.toList := by simp
  rw [splitPath, parts, List.splitOn_append_cons_self, List.splitOn_eq_singleton plain]
  simp [splitPath]

theorem splitPath_of_plain {text : String} (plain : '/' ∉ text.toList) :
    splitPath text = [text] := by
  rw [splitPath, List.splitOn_eq_singleton plain]
  simp

/-- A sanitised path consists of the parts of the manifest path, in order. -/
theorem sanitizePath_ok {path : String} {rel : List String}
    (sanitized : sanitizePath path = .ok rel) :
    rel = splitPath path ∧ ∀ part ∈ rel, isNormal part = true := by
  unfold sanitizePath at sanitized
  split at sanitized
  next => cases sanitized
  next pushed walked =>
    obtain ⟨joined, normal⟩ := pushParts_ok walked
    rw [List.nil_append] at joined
    split at sanitized
    next => cases sanitized
    next =>
      split at sanitized
      next =>
        cases sanitized
        exact ⟨joined, joined ▸ normal⟩
      next => cases sanitized

end Busyncr.Client
