import Mathlib.Data.List.Nodup
import Busyncr.Core.Manifest
import Busyncr.Lib.Directory
import Busyncr.Lib.Transition

/-!
The files of the client registry: `write_atomic` and `read_registry` on the
directory `clients/`.

A scan lists the directory and then reads one file after another, while
another process may be in the middle of a write.  Writes come one after
another, and each may be cut off between any two of its file steps.
-/

namespace Busyncr.Daemon.RegistryFiles

open Directory Transition

/-- The name of a file in `clients/`. -/
abbrev FileName := List Char

/-- `Path::extension`: what follows the last dot, unless the name begins with
it. -/
def extension (name : FileName) : Option FileName :=
  match name.reverse.dropWhile (· != '.') with
  | [] => none
  | _ :: before =>
      if before = [] then none else some (name.reverse.takeWhile (· != '.')).reverse

/-- Lowercase hex. -/
def hex (bytes : Bytes) : List Char :=
  bytes.flatMap fun byte => [Nat.digitChar (byte.toNat / 16), Nat.digitChar (byte.toNat % 16)]

def tomlExtension : FileName := ['t', 'o', 'm', 'l']

/-- `client_path`: only the letters and digits of a fingerprint count. -/
def clientPath (fingerprint : List Char) : FileName :=
  fingerprint.filter Char.isAlphanum ++ '.' :: tomlExtension

def tmpPrefix : FileName := ['.', 't', 'm', 'p', '-']

/-- The temporary file of `write_atomic`. -/
def tmpName (name : FileName) : FileName := tmpPrefix ++ name

/-- A client record as it is stored. -/
structure StoredClient where
  name : String
  fingerprint : String
  revoked : Bool
deriving DecidableEq

/-- The TOML library. -/
structure Toml where
  toStringPretty : StoredClient → String
  fromStr : String → Option StoredClient

/-- A written record reads back. -/
def Toml.Inverts (toml : Toml) : Prop :=
  ∀ record, toml.fromStr (toml.toStringPretty record) = some record

inductive RegistryError where
  | io (path : FileName)
  | registryParse (path : FileName)
deriving DecidableEq

section Files

variable (toml : Toml)

/-- The content of a record's file. -/
def body (record : StoredClient) : Bytes := utf8Bytes (toml.toStringPretty record)

/-- Read one listed entry; `none` if it is skipped. -/
def readEntry (dir : Dir FileName) (name : FileName) :
    Except RegistryError (Option StoredClient) :=
  if extension name ≠ some tomlExtension then .ok none
  else
    match dir name with
    | none => .error (.io name)
    | some bytes =>
        match fromUtf8? bytes with
        | none => .error (.io name)
        | some text =>
            match toml.fromStr text with
            | none => .error (.registryParse name)
            | some record => .ok (some record)

/-- The file steps that install a record. -/
def writeRecord (name : FileName) (record : StoredClient) : List (FileStep FileName) :=
  writeAtomic (tmpName name) name (body toml record)

end Files

/-- What a process scans the registry for. -/
inductive Purpose where
  | readRegistry
  /-- `enroll_client`, with the digest of the certificate it will issue. -/
  | enrollClient (name : String) (digest : Vector UInt8 32)
  | revoke (name : String)
deriving DecidableEq

/-- The entries a scan has listed and not read yet, and the records found. -/
structure Scan where
  todo : List FileName
  found : List (FileName × StoredClient)
deriving DecidableEq

inductive Process where
  | scanning (purpose : Purpose) (scan : Scan)
  /-- The records still to be written; when there are none, the call has
  returned. -/
  | writing (left : List (FileName × StoredClient))
  | returned (found : List (FileName × StoredClient))
  | nameTaken (name : String)
  | failed (error : RegistryError)
  | dead
deriving DecidableEq

/-- A write in progress. -/
structure Write where
  process : Nat
  name : FileName
  record : StoredClient
  todo : List (FileStep FileName)

structure Machine where
  dir : Dir FileName
  /-- The names that files have been created under. -/
  names : List FileName
  /-- The records whose rename was completed. -/
  installed : FileName → Option StoredClient
  write : Option Write
  processes : Nat → Option Process

/-- An empty registry. -/
def Machine.init : Machine := ⟨fun _ => none, [], fun _ => none, none, fun _ => none⟩

def Machine.setProcess (machine : Machine) (process : Nat) (state : Process) : Machine :=
  { machine with processes := Function.update machine.processes process (some state) }

/-- The entries of the directory. -/
def Machine.entries (machine : Machine) : List FileName :=
  machine.names.filter fun name => (machine.dir name).isSome

inductive Event where
  /-- A call lists the directory, in some order. -/
  | list (process : Nat) (purpose : Purpose) (order : List FileName)
  /-- The listing returns an entry that was not there at first. -/
  | notice (process : Nat) (name : FileName)
  | read (process : Nat)
  /-- A finished scan is acted upon. -/
  | decide (process : Nat)
  /-- A process begins to write its next record. -/
  | start (process : Nat)
  /-- The next file step of the write in progress. -/
  | advance
  /-- The write fails or its process dies in the next step, of which a write
  got this far. -/
  | crash (written : Nat)
deriving DecidableEq

/-- What a call does with the records it found. -/
def decision (found : List (FileName × StoredClient)) : Purpose → Process
  | .readRegistry => .returned found
  | .enrollClient name digest =>
      if found.any fun entry => entry.2.name = name && !entry.2.revoked then .nameTaken name
      else .writing [(clientPath (hex digest.toList),
        ⟨name, String.ofList (hex digest.toList), false⟩)]
  | .revoke name =>
      .writing ((found.filter fun entry => entry.2.name = name && !entry.2.revoked).map
        fun entry => (entry.1, { entry.2 with revoked := true }))

section Step

variable (toml : Toml) (machine : Machine)

def listDirectory (process : Nat) (purpose : Purpose) (order : List FileName) : Option Machine :=
  match machine.processes process with
  | some _ => none
  | none =>
      if order.isPerm machine.entries then
        some (machine.setProcess process (.scanning purpose ⟨order, []⟩))
      else none

def noticeEntry (process : Nat) (name : FileName) : Option Machine :=
  match machine.processes process with
  | some (.scanning purpose scan) =>
      if (machine.dir name).isSome ∧ name ∉ scan.todo ∧ name ∉ scan.found.map Prod.fst then
        some (machine.setProcess process
          (.scanning purpose { scan with todo := scan.todo ++ [name] }))
      else none
  | _ => none

def readNext (process : Nat) : Option Machine :=
  match machine.processes process with
  | some (.scanning purpose ⟨name :: rest, found⟩) =>
      match readEntry toml machine.dir name with
      | .error error => some (machine.setProcess process (.failed error))
      | .ok none => some (machine.setProcess process (.scanning purpose ⟨rest, found⟩))
      | .ok (some record) =>
          some (machine.setProcess process (.scanning purpose ⟨rest, found ++ [(name, record)]⟩))
  | _ => none

def decideCall (process : Nat) : Option Machine :=
  match machine.processes process with
  | some (.scanning purpose ⟨[], found⟩) =>
      some (machine.setProcess process (decision found purpose))
  | _ => none

def startWrite (process : Nat) : Option Machine :=
  match machine.write, machine.processes process with
  | none, some (.writing ((name, record) :: left)) =>
      some { machine.setProcess process (.writing left) with
        names := (machine.names.insert (tmpName name)).insert name
        write := some ⟨process, name, record, writeRecord toml name record⟩ }
  | _, _ => none

def advanceWrite : Option Machine :=
  match machine.write with
  | some ⟨process, name, record, file :: rest⟩ =>
      if rest = [] then
        some { machine with
          dir := file.apply machine.dir
          installed := Function.update machine.installed name (some record)
          write := none }
      else
        some { machine with
          dir := file.apply machine.dir
          write := some ⟨process, name, record, rest⟩ }
  | _ => none

def crashWrite (written : Nat) : Option Machine :=
  match machine.write with
  | some ⟨process, _, _, file :: _⟩ =>
      some { machine.setProcess process .dead with
        dir := file.cut machine.dir written
        write := none }
  | _ => none

def step : Event → Option Machine
  | .list process purpose order => listDirectory machine process purpose order
  | .notice process name => noticeEntry machine process name
  | .read process => readNext toml machine process
  | .decide process => decideCall machine process
  | .start process => startWrite toml machine process
  | .advance => advanceWrite machine
  | .crash written => crashWrite machine written

/-- What each event can do. -/
inductive Stepped : Event → Machine → Prop where
  | listed (process : Nat) (purpose : Purpose) (order : List FileName)
      (new : machine.processes process = none) (whole : order.Perm machine.entries) :
      Stepped (.list process purpose order)
        (machine.setProcess process (.scanning purpose ⟨order, []⟩))
  | noticed (process : Nat) (purpose : Purpose) (scan : Scan) (name : FileName)
      (scanning : machine.processes process = some (.scanning purpose scan))
      (there : (machine.dir name).isSome) (unread : name ∉ scan.todo)
      (unseen : name ∉ scan.found.map Prod.fst) :
      Stepped (.notice process name) (machine.setProcess process
        (.scanning purpose { scan with todo := scan.todo ++ [name] }))
  | failed (process : Nat) (purpose : Purpose) (name : FileName) (rest : List FileName)
      (found : List (FileName × StoredClient)) (error : RegistryError)
      (scanning : machine.processes process = some (.scanning purpose ⟨name :: rest, found⟩))
      (read : readEntry toml machine.dir name = .error error) :
      Stepped (.read process) (machine.setProcess process (.failed error))
  | skipped (process : Nat) (purpose : Purpose) (name : FileName) (rest : List FileName)
      (found : List (FileName × StoredClient))
      (scanning : machine.processes process = some (.scanning purpose ⟨name :: rest, found⟩))
      (read : readEntry toml machine.dir name = .ok none) :
      Stepped (.read process) (machine.setProcess process (.scanning purpose ⟨rest, found⟩))
  | found (process : Nat) (purpose : Purpose) (name : FileName) (rest : List FileName)
      (found : List (FileName × StoredClient)) (record : StoredClient)
      (scanning : machine.processes process = some (.scanning purpose ⟨name :: rest, found⟩))
      (read : readEntry toml machine.dir name = .ok (some record)) :
      Stepped (.read process) (machine.setProcess process
        (.scanning purpose ⟨rest, found ++ [(name, record)]⟩))
  | decided (process : Nat) (purpose : Purpose) (found : List (FileName × StoredClient))
      (scanning : machine.processes process = some (.scanning purpose ⟨[], found⟩)) :
      Stepped (.decide process) (machine.setProcess process (decision found purpose))
  | started (process : Nat) (name : FileName) (record : StoredClient)
      (left : List (FileName × StoredClient)) (idle : machine.write = none)
      (writing : machine.processes process = some (.writing ((name, record) :: left))) :
      Stepped (.start process) { machine.setProcess process (.writing left) with
        names := (machine.names.insert (tmpName name)).insert name
        write := some ⟨process, name, record, writeRecord toml name record⟩ }
  | advanced (process : Nat) (name : FileName) (record : StoredClient)
      (file : FileStep FileName) (rest : List (FileStep FileName)) (more : rest ≠ [])
      (writing : machine.write = some ⟨process, name, record, file :: rest⟩) :
      Stepped .advance { machine with
        dir := file.apply machine.dir
        write := some ⟨process, name, record, rest⟩ }
  | installed (process : Nat) (name : FileName) (record : StoredClient)
      (file : FileStep FileName) (writing : machine.write = some ⟨process, name, record, [file]⟩) :
      Stepped .advance { machine with
        dir := file.apply machine.dir
        installed := Function.update machine.installed name (some record)
        write := none }
  | crashed (written process : Nat) (name : FileName) (record : StoredClient)
      (file : FileStep FileName) (rest : List (FileStep FileName))
      (writing : machine.write = some ⟨process, name, record, file :: rest⟩) :
      Stepped (.crash written) { machine.setProcess process .dead with
        dir := file.cut machine.dir written
        write := none }

end Step

section Inversion

variable {toml : Toml} {machine next : Machine}

theorem stepped_of_readNext {process : Nat}
    (stepped : readNext toml machine process = some next) :
    Stepped toml machine (.read process) next := by
  unfold readNext at stepped
  split at stepped
  next purpose name rest found scanning =>
    split at stepped
    next error read =>
      cases stepped
      exact .failed process purpose name rest found error scanning read
    next read =>
      cases stepped
      exact .skipped process purpose name rest found scanning read
    next record read =>
      cases stepped
      exact .found process purpose name rest found record scanning read
  next => cases stepped

theorem stepped_of_advanceWrite (stepped : advanceWrite machine = some next) :
    Stepped toml machine .advance next := by
  unfold advanceWrite at stepped
  split at stepped
  next process name record file rest writing =>
    split at stepped
    next last =>
      cases stepped
      subst last
      exact .installed process name record file writing
    next more =>
      cases stepped
      exact .advanced process name record file rest more writing
  next => cases stepped

theorem stepped_of_step {event : Event} (stepped : step toml machine event = some next) :
    Stepped toml machine event next := by
  cases event with
  | list process purpose order =>
      simp only [step, listDirectory] at stepped
      split at stepped
      next => cases stepped
      next new =>
        split at stepped
        next whole =>
          cases stepped
          exact .listed process purpose order new (List.isPerm_iff.mp whole)
        next => cases stepped
  | notice process name =>
      simp only [step, noticeEntry] at stepped
      split at stepped
      next purpose scan scanning =>
        split at stepped
        next unseen =>
          cases stepped
          exact .noticed process purpose scan name scanning unseen.1 unseen.2.1 unseen.2.2
        next => cases stepped
      next => cases stepped
  | read process => exact stepped_of_readNext stepped
  | decide process =>
      simp only [step, decideCall] at stepped
      split at stepped
      next purpose found scanning =>
        cases stepped
        exact .decided process purpose found scanning
      next => cases stepped
  | start process =>
      simp only [step, startWrite] at stepped
      split at stepped
      next name record left idle writing =>
        cases stepped
        exact .started process name record left idle writing
      next => cases stepped
  | advance => exact stepped_of_advanceWrite stepped
  | crash written =>
      simp only [step, crashWrite] at stepped
      split at stepped
      next process name record file rest writing =>
        cases stepped
        exact .crashed written process name record file rest writing
      next => cases stepped

end Inversion

section Names

/-- A name that `write_atomic` would use for its temporary file. -/
def Temporary (name : FileName) : Prop := tmpPrefix <+: name

instance (name : FileName) : Decidable (Temporary name) :=
  inferInstanceAs (Decidable (tmpPrefix <+: name))

theorem temporary_tmpName (name : FileName) : Temporary (tmpName name) :=
  List.prefix_append _ _

/-- The name of a record's file: a scan reads it, and it is not temporary. -/
structure Entry (name : FileName) : Prop where
  extension : extension name = some tomlExtension
  permanent : ¬ Temporary name

theorem extension_append {stem : FileName} (some : stem ≠ []) :
    extension (stem ++ '.' :: tomlExtension) = .some tomlExtension := by
  simp [RegistryFiles.extension, tomlExtension, some]

theorem isAlphanum_digitChar {value : Nat} (small : value < 16) :
    (Nat.digitChar value).isAlphanum = true := by
  have all : ∀ value < 16, (Nat.digitChar value).isAlphanum = true := by decide
  exact all value small

theorem hex_isAlphanum (bytes : Bytes) : ∀ char ∈ hex bytes, char.isAlphanum = true := by
  intro char listed
  simp only [hex, List.mem_flatMap, List.mem_cons, List.not_mem_nil, or_false] at listed
  obtain ⟨byte, _, rfl | rfl⟩ := listed
  · exact isAlphanum_digitChar (by have := byte.toNat_lt; omega)
  · exact isAlphanum_digitChar (Nat.mod_lt _ (by decide))

theorem entry_clientPath (digest : Vector UInt8 32) : Entry (clientPath (hex digest.toList)) := by
  have kept : (hex digest.toList).filter Char.isAlphanum = hex digest.toList :=
    List.filter_eq_self.mpr (hex_isAlphanum digest.toList)
  unfold clientPath
  rw [kept]
  cases digits : hex digest.toList with
  | nil =>
      have length := congrArg List.length digits
      simp [hex, List.length_flatMap] at length
  | cons first rest =>
      have letter := hex_isAlphanum digest.toList first (by simp [digits])
      refine ⟨extension_append (by simp), ?_⟩
      intro temporary
      simp only [Temporary, tmpPrefix, List.cons_append, List.cons_prefix_cons] at temporary
      rw [← temporary.1] at letter
      exact absurd letter (by decide)

end Names

end Busyncr.Daemon.RegistryFiles
