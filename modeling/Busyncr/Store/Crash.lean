import Busyncr.Lib.Transition
import Busyncr.Store.Prune
import Busyncr.Store.Refcount

/-!
The store under crashes: calls run one after another, each as the file steps
and commits it is made of, and the process may die between any two of them.

`write_object` goes through a `.tmp-` file whose content may be any prefix of
the object when the process dies.  Reopening sweeps these files, one by one
and itself interruptible.  Commits, renames and unlinks are single steps.
-/

namespace Busyncr.Store.Crash

open Std Transition

/-- The bytes of the reference lists of the stored snapshots. -/
def refBytes (tables : Tables) : Nat :=
  (tables.snapshots.keys.map fun snapshot =>
    (tables.snapshotRefs[snapshot]?.getD []).length).sum

/-- The database as the store sees it: which tables it can commit.  Its file
is addressed by 64-bit offsets, so larger values are refused with
`StoreError::Index`. -/
structure Redb where
  accepts : Tables → Bool
  addressable : ∀ tables, accepts tables = true → refBytes tables < 2 ^ 64

/-- A call of the store; `put_chunk` with the name of its `.tmp-` file. -/
inductive Call where
  | putChunk (tmp : Ulid) (id : ChunkId) (data : Bytes)
  | putSnapshotAs (snapshot : Ulid) (blob : Bytes) (refs : List ChunkId) (owner : Option String)
  | deleteSnapshot (snapshot : Ulid)
  | deleteChunk (id : ChunkId)
  | prune (nowMs : Int64) (policy : Retention.RetentionPolicy) (mode : PruneMode)
  | gc (nowMs : Int64) (grace : Duration)

/-- Where the process stands. -/
inductive Phase where
  | down
  /-- `sweep_tmp_files` with these left to remove. -/
  | sweeping (names : List Ulid)
  | idle
  | writing (tmp : Ulid) (id : ChunkId) (data : Bytes)
  | synced (tmp : Ulid) (id : ChunkId) (data : Bytes)
  | committing (transaction : Transaction)
  /-- A prune with snapshots left to delete. -/
  | pruning (nowMs : Int64) (mode : PruneMode) (drop : List Ulid)
  /-- Object files to unlink after the commit of gc or `delete_chunk`. -/
  | unlinking (ids : List ChunkId)

/-- The disk, the `.tmp-` files in it, and the process. -/
structure Machine where
  disk : Disk
  temps : ExtTreeMap Ulid Bytes
  phase : Phase

/-- Nothing stored and no process. -/
def Machine.empty : Machine := ⟨.empty, ∅, .down⟩

inductive Event where
  | openStore
  /-- One `fs::remove_file` of the sweep. -/
  | sweep (name : Ulid)
  | call (call : Call)
  /-- The next bytes of the object reach the `.tmp-` file. -/
  | write (count : Nat)
  | sync
  | rename
  | commit
  /-- One `fs::remove_file`; the reclaimed chunks come in no known order. -/
  | unlink (id : ChunkId)
  /-- The step fails and the call returns; of a `.tmp-` file, whether its
  removal succeeded. -/
  | fail (cleaned : Bool)
  | crash

/-- Nothing left to do once the list is empty. -/
def Phase.rest {Alpha : Type} (phase : List Alpha → Phase) : List Alpha → Phase
  | [] => .idle
  | value :: values => phase (value :: values)

/-- The object files a committed transaction leaves to unlink. -/
def unlinks (tables : Tables) : Transaction → List ChunkId
  | .deleteChunk id => [id]
  | .gc nowMs grace => (Store.gc tables nowMs grace).reclaimed.map Prod.fst
  | _ => []

/-- Start a call; `put_chunk` of a new chunk begins with an empty `.tmp-`
file. -/
def Machine.start (machine : Machine) : Call → Machine
  | .putChunk tmp id data =>
      if id ∈ machine.disk.tables.chunks then
        { machine with phase := .committing (.putChunk id data) }
      else
        { machine with temps := machine.temps.insert tmp [], phase := .writing tmp id data }
  | .putSnapshotAs snapshot blob refs owner =>
      { machine with phase := .committing (.putSnapshotAs snapshot blob refs owner) }
  | .deleteSnapshot snapshot => { machine with phase := .committing (.deleteSnapshot snapshot) }
  | .deleteChunk id => { machine with phase := .committing (.deleteChunk id) }
  | .prune nowMs policy mode =>
      { machine with
        phase := .pruning nowMs mode
          (prunePlan nowMs policy (listSnapshots machine.disk.tables)).drop }
  | .gc nowMs grace => { machine with phase := .committing (.gc nowMs grace) }

/-- Run a transaction: commit it and go on with `done`, or end it and go on
as its error asks. -/
def Machine.settle (redb : Redb) (machine : Machine) (transaction : Transaction) (done : Phase)
    (refused : StoreError → Phase) : Machine :=
  match transaction.result machine.disk.tables with
  | .error error => { machine with phase := refused error }
  | .ok tables =>
      if redb.accepts tables then
        { machine with disk.tables := tables, phase := done }
      else { machine with phase := refused .index }

/-- A prune passes over a snapshot that is gone and stops at any other
error. -/
def pruneRefused (nowMs : Int64) (mode : PruneMode) (rest : List Ulid) : StoreError → Phase
  | .snapshotNotFound _ => .pruning nowMs mode rest
  | _ => .idle

/-- Whether the current step of a call may fail with an I/O error.  A rename
replaces an existing destination here, so it fails only without one; renames
that fail over one are moves of their own. -/
def Machine.mayFail (machine : Machine) : Bool :=
  match machine.phase with
  | .down => false
  | .idle => false
  | .sweeping _ => true
  | .writing _ _ _ => true
  | .synced _ id _ => decide (id ∉ machine.disk.objects)
  | .committing _ => true
  | .pruning _ _ _ => true
  | .unlinking _ => true

/-- The `.tmp-` file of the current step is removed. -/
def Machine.cleanTmp (machine : Machine) : Machine :=
  match machine.phase with
  | .writing tmp _ _ => { machine with temps := machine.temps.erase tmp }
  | .synced tmp _ _ => { machine with temps := machine.temps.erase tmp }
  | _ => machine

/-- An open that fails leaves no store; a call that fails leaves it idle. -/
def Phase.afterFailure : Phase → Phase
  | .sweeping _ => .down
  | _ => .idle

/-- One step; `none` when the process is not where the step can happen. -/
def step (blake3 : Blake3) (redb : Redb) (machine : Machine) : Event → Option Machine
  | .openStore =>
      match machine.phase with
      | .down => some { machine with phase := .rest .sweeping machine.temps.keys }
      | _ => none
  | .sweep name =>
      match machine.phase with
      | .sweeping names =>
          if name ∈ names then
            some { machine with
              temps := machine.temps.erase name
              phase := .rest .sweeping (names.erase name) }
          else none
      | _ => none
  | .call call =>
      match machine.phase with
      | .idle => some (machine.start call)
      | _ => none
  | .write count =>
      match machine.phase with
      | .writing tmp _ data =>
          let written := (machine.temps[tmp]?.getD []).length
          some { machine with
            temps := machine.temps.insert tmp ((objectBytes blake3 data).take (written + count)) }
      | _ => none
  | .sync =>
      match machine.phase with
      | .writing tmp id data =>
          if machine.temps[tmp]? = some (objectBytes blake3 data) then
            some { machine with phase := .synced tmp id data }
          else none
      | _ => none
  | .rename =>
      match machine.phase with
      | .synced tmp id data =>
          machine.temps[tmp]?.map fun content =>
            { disk := { machine.disk with objects := machine.disk.objects.insert id content }
              temps := machine.temps.erase tmp
              phase := .committing (.putChunk id data) }
      | _ => none
  | .commit =>
      match machine.phase with
      | .committing transaction =>
          some (machine.settle redb transaction
            (.rest .unlinking (unlinks machine.disk.tables transaction)) fun _ => .idle)
      | .pruning nowMs mode (snapshot :: rest) =>
          some (machine.settle redb (.deleteSnapshot snapshot) (.pruning nowMs mode rest)
            (pruneRefused nowMs mode rest))
      | .pruning nowMs mode [] =>
          some (machine.settle redb (.recordPrune nowMs mode) .idle fun _ => .idle)
      | _ => none
  | .unlink id =>
      match machine.phase with
      | .unlinking ids =>
          if id ∈ ids then
            some { machine with
              disk := { machine.disk with objects := machine.disk.objects.erase id }
              phase := .rest .unlinking (ids.erase id) }
          else none
      | _ => none
  | .fail cleaned =>
      if machine.mayFail then
        let left := if cleaned then machine.cleanTmp else machine
        some { left with phase := machine.phase.afterFailure }
      else none
  | .crash => some { machine with phase := .down }

end Busyncr.Store.Crash
