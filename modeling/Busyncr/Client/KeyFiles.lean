import Busyncr.Core.Keyfile
import Busyncr.Lib.Directory
import Busyncr.Lib.Transition

/-!
The key files of the client state directory: `import_key` and
`ensure_data_key`.

A call first looks at the directory and then changes it by file steps, which
its plan lists; no other process touches the directory meanwhile.  The
machine runs one call after another and may be stopped in any step, by a
failure or by a crash.
-/

namespace Busyncr.Client.KeyFiles

open Directory

/-- `data.key` or `chunk-id.key`. -/
inductive KeyName where
  | data
  | chunkId
deriving DecidableEq

/-- A file of the state directory. -/
inductive KeyFile where
  | live (name : KeyName)
  /-- `.tmp-<name>`. -/
  | tmp (name : KeyName)
  /-- `<name>.old-<slot>`. -/
  | old (name : KeyName) (slot : Nat)
deriving DecidableEq

abbrev StateDir := Dir KeyFile

abbrev KeyStep := FileStep KeyFile

/-- The raw bytes of a key. -/
abbrev RawKey := Vector UInt8 32

inductive EnrollError where
  | io
  | badDataKey (path : KeyFile) (found : Nat)
deriving DecidableEq

inductive KeyError where
  | state (error : EnrollError)
  | crypto (error : CryptoError)
  | noBackupSlot
deriving DecidableEq

inductive ImportOutcome where
  | installed
  | alreadyCurrent
  | replaced (backedUp : KeyFile)
deriving DecidableEq

def maxKeyBackups : Nat := 1000

/-- `Path::exists`. -/
def present (dir : StateDir) (file : KeyFile) : Bool := (dir file).isSome

/-- A key file as a key, if it is there and has the length of one. -/
def loadOptional (dir : StateDir) (name : KeyName) : Option RawKey :=
  (dir (.live name)).bind (toArray? 32)

/-- The first slot neither key has a backup in. -/
def freeSlot (dir : StateDir) : Option Nat :=
  (List.range' 1 maxKeyBackups).find? fun slot =>
    !present dir (.old .data slot) && !present dir (.old .chunkId slot)

/-- Move a key file to a slot if it is there. -/
def backUp (dir : StateDir) (slot : Nat) (name : KeyName) : List KeyStep :=
  if present dir (.live name) then [.rename (.live name) (.old name slot)] else []

/-- The file a backup reports: that of the data key if it was there. -/
def preserved (dir : StateDir) (slot : Nat) : KeyFile :=
  if present dir (.live .data) then .old .data slot else .old .chunkId slot

def writeKey (name : KeyName) (key : RawKey) : List KeyStep :=
  writeAtomic (.tmp name) (.live name) key.toList

/-- What `import_key` does with the keys of an opened keyfile. -/
def importPlan (dir : StateDir) (keys : DataKey × ChunkIdKey) :
    Except KeyError ImportOutcome × List KeyStep :=
  let install := writeKey .data keys.1.raw ++ writeKey .chunkId keys.2.raw
  if loadOptional dir .data = some keys.1.raw ∧ loadOptional dir .chunkId = some keys.2.raw then
    (.ok .alreadyCurrent, [])
  else if present dir (.live .data) || present dir (.live .chunkId) then
    match freeSlot dir with
    | none => (.error .noBackupSlot, [])
    | some slot =>
        (.ok (.replaced (preserved dir slot)),
          backUp dir slot .data ++ backUp dir slot .chunkId ++ install)
  else (.ok .installed, install)

/-- What `ensure_key_file` does: `true` if it creates the file. -/
def ensureKeyFile (dir : StateDir) (name : KeyName) (fresh : RawKey) :
    Except EnrollError Bool × List KeyStep :=
  match dir (.live name) with
  | some bytes =>
      if bytes.length = 32 then (.ok false, [])
      else (.error (.badDataKey (.live name) bytes.length), [])
  | none => (.ok true, writeKey name fresh)

/-- What `ensure_data_key` does: the data key first, and after it the
chunk-ID key. -/
def ensurePlan (dir : StateDir) (freshData freshChunk : RawKey) :
    Except EnrollError Bool × List KeyStep :=
  match ensureKeyFile dir .data freshData with
  | (.error error, steps) => (.error error, steps)
  | (.ok created, steps) =>
      match ensureKeyFile dir .chunkId freshChunk with
      | (.error error, more) => (.error error, steps ++ more)
      | (.ok _, more) => (.ok created, steps ++ more)

/-- A call, with the bytes it reads or the randomness it draws. -/
inductive KeyCall where
  | importKey (bytes passphrase : Bytes)
  | ensureDataKey (freshData freshChunk : RawKey)
deriving DecidableEq

section Calls

variable (aead : Aead) (argon2id : Argon2id)

/-- The keys of a keyfile. -/
def openKeyfile (bytes passphrase : Bytes) : Except CryptoError (DataKey × ChunkIdKey) :=
  (importKeyfile aead argon2id bytes passphrase).get
    (Option.isSome_iff_exists.mpr (importKeyfile_total bytes passphrase))

/-- The file steps of a call. -/
def KeyCall.steps (dir : StateDir) : KeyCall → List KeyStep
  | importKey bytes passphrase =>
      match openKeyfile aead argon2id bytes passphrase with
      | .error _ => []
      | .ok keys => (importPlan dir keys).2
  | ensureDataKey freshData freshChunk => (ensurePlan dir freshData freshChunk).2

/-- An `import_key` that nothing stops. -/
def importKey (dir : StateDir) (bytes passphrase : Bytes) :
    Except KeyError ImportOutcome × StateDir :=
  match openKeyfile aead argon2id bytes passphrase with
  | .error error => (.error (.crypto error), dir)
  | .ok keys => ((importPlan dir keys).1, execute dir (importPlan dir keys).2)

/-- An `ensure_data_key` that nothing stops. -/
def ensureDataKey (dir : StateDir) (freshData freshChunk : RawKey) :
    Except EnrollError Bool × StateDir :=
  ((ensurePlan dir freshData freshChunk).1, execute dir (ensurePlan dir freshData freshChunk).2)

end Calls

/-- The directory, the last call begun and what it has left to do. -/
structure Machine where
  dir : StateDir
  call : Option KeyCall
  todo : List KeyStep

def Machine.idle (dir : StateDir) : Machine := ⟨dir, none, []⟩

inductive Event where
  | begin (call : KeyCall)
  | advance
  /-- The call fails or the process dies in the next step, of which a write
  got this far. -/
  | stop (written : Nat)
deriving DecidableEq

def step (aead : Aead) (argon2id : Argon2id) (machine : Machine) : Event → Option Machine
  | .begin call =>
      match machine.todo with
      | [] => some ⟨machine.dir, some call, call.steps aead argon2id machine.dir⟩
      | _ :: _ => none
  | .advance =>
      match machine.todo with
      | [] => none
      | next :: rest => some { machine with dir := next.apply machine.dir, todo := rest }
  | .stop written =>
      match machine.todo with
      | [] => some machine
      | next :: _ => some { machine with dir := next.cut machine.dir written, todo := [] }

end Busyncr.Client.KeyFiles
