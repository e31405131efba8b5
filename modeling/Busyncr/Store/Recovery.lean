import Busyncr.Store.CrashRuns
import Busyncr.Store.Sequences
import Mathlib.Data.List.ModifyLast

/-!
What the calls of a store come to when failures and crashes cut them short.

A call takes effect at its commit: before it nothing is read differently, and
after it only files without an index entry are left to remove.  A prune
commits every deletion by itself, so of a prune the first deletions may stay.

Here a rename may also fail over an existing object file.  `write_object` then
keeps that file and succeeds, which is right as long as it holds these exact
bytes.
-/

namespace Busyncr.Store.Crash

open Std Transition

/-- A step of the store, or a rename that fails whatever is in its place. -/
inductive Move where
  | event (event : Event)
  /-- Whether a file is seen at the object path, and whether the `.tmp-` file
  is removed. -/
  | renameFails (seen cleaned : Bool)

/-- One step where renames may fail over existing files. -/
def move (blake3 : Blake3) (redb : Redb) (machine : Machine) : Move → Option Machine
  | .event event => step blake3 redb machine event
  | .renameFails seen cleaned =>
      match machine.phase with
      | .synced _ id data =>
          let left := if cleaned then machine.cleanTmp else machine
          if seen then
            if id ∈ machine.disk.objects then
              some { left with phase := .committing (.putChunk id data) }
            else none
          else some { left with phase := .idle }
      | _ => none

/-- The blob whose object file was found in place and kept. -/
def keptFor (visit : Visit Machine Move) : Option (ChunkId × Bytes) :=
  match visit.event, visit.before.phase with
  | .renameFails true _, .synced _ id data => some (id, data)
  | _, _ => none

/-- A file that is kept holds the bytes it is kept for. -/
def KeepsObject (blake3 : Blake3) (visit : Visit Machine Move) : Prop :=
  ∀ kept ∈ keptFor visit,
    visit.before.disk.objects[kept.1]? = some (objectBytes blake3 kept.2)

instance (blake3 : Blake3) (visit : Visit Machine Move) : Decidable (KeepsObject blake3 visit) :=
  inferInstanceAs (Decidable (∀ kept ∈ keptFor visit, _))

/-- The operation a call is to carry out. -/
def Call.operation : Call → Operation
  | .putChunk _ id data => .putChunk id data
  | .putSnapshotAs snapshot blob refs owner => .putSnapshotAs snapshot blob refs owner
  | .deleteSnapshot snapshot => .deleteSnapshot snapshot
  | .deleteChunk id => .deleteChunk id
  | .prune nowMs policy mode => .prune nowMs policy mode
  | .gc nowMs grace => .gc nowMs grace

/-- The operation whose call an event begins. -/
def Event.operation? : Event → Option Operation
  | .call begun => some begun.operation
  | _ => none

/-- The operations of the calls that are begun. -/
def operationsOf (events : List Event) : List Operation := events.filterMap Event.operation?

def Move.operation? : Move → Option Operation
  | .event base => base.operation?
  | .renameFails _ _ => none

/-- A call that was begun, and whether its transaction was committed; of a
prune the last one. -/
structure Attempt where
  call : Call
  committed : Bool

def Attempt.operation (attempt : Attempt) : Operation := attempt.call.operation

/-- Whether a commit in this state ends with the transaction of the call on
the disk. -/
def commits (redb : Redb) (machine : Machine) : Bool :=
  match machine.phase with
  | .committing transaction =>
      match transaction.result machine.disk.tables with
      | .error _ => false
      | .ok tables => redb.accepts tables
  | .pruning nowMs mode [] => redb.accepts (recordPrune machine.disk.tables nowMs mode)
  | _ => false

def note (redb : Redb) (attempts : List Attempt) (visit : Visit Machine Move) : List Attempt :=
  match visit.event with
  | .event (.call call) => attempts ++ [⟨call, false⟩]
  | .event .commit =>
      if commits redb visit.before then
        attempts.modifyLast fun attempt => ⟨attempt.call, true⟩
      else attempts
  | _ => attempts

/-- The calls of a history in their order. -/
def attemptsOf (redb : Redb) (history : List (Visit Machine Move)) : List Attempt :=
  history.foldl (note redb) []

/-- The contents some calls come to: a committed call is carried out, any
other call changes nothing, but for the first deletions of a prune. -/
inductive Recovered (start : Contents) : List Attempt → Contents → Prop where
  | untouched : Recovered start [] start
  | applied {attempts contents} (call : Call) : Recovered start attempts contents →
      Recovered start (attempts ++ [⟨call, true⟩]) (contents.perform call.operation).2
  | lost {attempts contents} (call : Call) : Recovered start attempts contents →
      Recovered start (attempts ++ [⟨call, false⟩]) contents
  | cutShort {attempts contents nowMs policy mode} {dropped : List Ulid} :
      Recovered start attempts contents →
      dropped <+: (prunePlan nowMs policy contents.live.keys).drop →
      Recovered start (attempts ++ [⟨.prune nowMs policy mode, false⟩])
        (contents.performAll (dropped.map .deleteSnapshot))

/-- No call is in progress, or all that is left of it is to unlink files. -/
def Phase.Between : Phase → Prop
  | .down => True
  | .sweeping _ => True
  | .idle => True
  | .unlinking _ => True
  | _ => False

/-- The operation of the call in progress, while its commit is still to
come. -/
def Phase.operation? : Phase → Option Operation
  | .writing _ id data => some (.putChunk id data)
  | .synced _ id data => some (.putChunk id data)
  | .committing (.putChunk id data) => some (.putChunk id data)
  | .committing (.putSnapshotAs snapshot blob refs owner) =>
      some (.putSnapshotAs snapshot blob refs owner)
  | .committing (.deleteSnapshot snapshot) => some (.deleteSnapshot snapshot)
  | .committing (.deleteChunk id) => some (.deleteChunk id)
  | .committing (.gc nowMs grace) => some (.gc nowMs grace)
  | _ => none

/-- Where the process stands with the last of its calls. -/
inductive Standing (start : Contents) : List Attempt → Phase → Contents → Prop where
  | between {attempts phase contents} : phase.Between → Recovered start attempts contents →
      Standing start attempts phase contents
  | pending {attempts phase contents} {call : Call} :
      phase.operation? = some call.operation → Recovered start attempts contents →
      Standing start (attempts ++ [⟨call, false⟩]) phase contents
  | pruning {attempts contents nowMs policy mode} {dropped todo : List Ulid} :
      Recovered start attempts contents →
      dropped ++ todo = (prunePlan nowMs policy contents.live.keys).drop →
      Standing start (attempts ++ [⟨.prune nowMs policy mode, false⟩])
        (.pruning nowMs mode todo) (contents.performAll (dropped.map .deleteSnapshot))

section Disks

variable {blake3 : Blake3} {disk next : Disk} {contents : Contents}

/-- Files that no index entry needs are not read. -/
theorem objects_congr (represents : Represents blake3 disk contents)
    (sameTables : next.tables = disk.tables)
    (sameFiles : ∀ id ∈ disk.tables.chunks, next.objects[id]? = disk.objects[id]?) :
    Represents blake3 next contents where
  fetched id := by
    by_cases indexed : id ∈ disk.tables.chunks
    · exact represents.fetched_congr (by rw [sameTables]) (sameFiles id indexed)
    · rw [← represents.fetched, getChunk_eq_chunkNotFound_iff.mpr indexed,
        getChunk_eq_chunkNotFound_iff, sameTables]
      exact indexed
  snapshots := sameTables ▸ represents.snapshots
  refs := sameTables ▸ represents.refs
  owners := sameTables ▸ represents.owners
  marks := sameTables ▸ represents.marks
  lastPrune := sameTables ▸ represents.lastPrune
  lastGc := sameTables ▸ represents.lastGc
  exact := sameTables ▸ represents.exact

/-- A commit leaves the tables of the whole operation, and the files of all
chunks that are indexed after it. -/
theorem commit_agrees {transaction : Transaction} {operation : Operation} {tables : Tables}
    {call : Option Call} {temps : ExtTreeMap Ulid Bytes}
    (current : (Phase.committing transaction).operation? = some operation)
    (sound : (Phase.committing transaction).Sound blake3 call disk temps)
    (committed : transaction.result disk.tables = .ok tables) :
    tables = (operation.run blake3 disk).2.tables ∧
      ∀ id ∈ tables.chunks, disk.objects[id]? = (operation.run blake3 disk).2.objects[id]? := by
  cases transaction with
  | putChunk id data =>
      cases current
      cases committed
      obtain ⟨-, present⟩ := sound
      simp only [Operation.run, Store.putChunk]
      split
      next => exact ⟨rfl, fun _ _ => rfl⟩
      next fresh =>
        refine ⟨rfl, fun other _ => ?_⟩
        rw [OrderedTable.getElem?_insert_eq]
        split
        next same => rw [← same, present.resolve_left fresh]
        next => rfl
  | putSnapshotAs snapshot blob refs owner =>
      cases current
      simp only [Transaction.result] at committed
      have ran : ((Operation.putSnapshotAs snapshot blob refs owner).run blake3 disk).2 =
          ⟨tables, disk.objects⟩ := by
        simp only [Operation.run, committed, finish]
      rw [ran]
      exact ⟨rfl, fun _ _ => rfl⟩
  | deleteSnapshot snapshot =>
      cases current
      simp only [Transaction.result] at committed
      have ran : ((Operation.deleteSnapshot snapshot).run blake3 disk).2 =
          ⟨tables, disk.objects⟩ := by
        simp only [Operation.run, committed, finish]
      rw [ran]
      exact ⟨rfl, fun _ _ => rfl⟩
  | deleteChunk id =>
      cases current
      simp only [Transaction.result] at committed
      have gone : id ∉ tables.chunks := by
        obtain ⟨_, _, _, rfl⟩ := deleteChunk_ok committed
        simp
      have ran : ((Operation.deleteChunk id).run blake3 disk).2 =
          ⟨tables, disk.objects.erase id⟩ := by
        simp only [Operation.run, committed, finish]
      rw [ran]
      refine ⟨rfl, fun other indexed => ?_⟩
      have apart : id ≠ other := fun same => gone (same ▸ indexed)
      rw [OrderedTable.getElem?_erase_eq, if_neg apart]
  | gc nowMs grace =>
      cases current
      cases committed
      refine ⟨rfl, fun id indexed => ?_⟩
      simp only [Operation.run, OrderedTable.getElem?_eraseAll]
      rw [if_neg]
      intro reclaimed
      have expired := ((gc_meets disk.tables nowMs grace).reclaimed id).mp reclaimed
      have absent : chunkEntry (Store.gc disk.tables nowMs grace).tables.chunks id = none := by
        rw [chunkEntry_gc, if_pos expired]
      exact chunkEntry_eq_none_iff.mp absent indexed
  | recordPrune nowMs mode => cases current

theorem represents_of_commit {transaction : Transaction} {operation : Operation}
    {tables : Tables} {call : Option Call} {temps : ExtTreeMap Ulid Bytes}
    (represents : Represents blake3 disk contents)
    (current : (Phase.committing transaction).operation? = some operation)
    (sound : (Phase.committing transaction).Sound blake3 call disk temps)
    (committed : transaction.result disk.tables = .ok tables)
    (fits : (liveRefs tables).length < 2 ^ 64) :
    Represents blake3 { disk with tables := tables } (contents.perform operation).2 := by
  obtain ⟨sameTables, sameFiles⟩ := commit_agrees current sound committed
  rw [sameTables] at fits
  obtain ⟨-, onward⟩ := represents.run fits
  apply objects_congr onward sameTables
  rw [← sameTables]
  exact sameFiles

/-- Deleting snapshots one by one leaves what deleting them at once does. -/
theorem performAll_deleteSnapshots (dropped : List Ulid) :
    contents.performAll (dropped.map .deleteSnapshot) =
      { contents with live := OrderedTable.eraseAll dropped contents.live } := by
  induction dropped generalizing contents with
  | nil => rfl
  | cons snapshot rest inductionHypothesis =>
      have first : (contents.perform (.deleteSnapshot snapshot)).2 =
          { contents with live := contents.live.erase snapshot } := by
        simp only [Contents.perform]
        split
        next => rfl
        next gone => rw [OrderedTable.erase_of_fresh gone]
      rw [List.map_cons, Contents.performAll, List.foldl_cons, first]
      exact inductionHypothesis

theorem represents_recordPrune {nowMs : Int64} {policy : Retention.RetentionPolicy}
    {mode : PruneMode}
    (represents : Represents blake3 disk (contents.performAll
      ((prunePlan nowMs policy contents.live.keys).drop.map .deleteSnapshot))) :
    Represents blake3 { disk with tables := recordPrune disk.tables nowMs mode }
      (contents.perform (.prune nowMs policy mode)).2 := by
  rw [performAll_deleteSnapshots] at represents
  have other : lastPruneKey ≠ lastGcKey := by decide
  refine ⟨?_, represents.snapshots, represents.refs, represents.owners, represents.marks, ?_, ?_,
    ?_⟩
  · intro id
    exact represents.fetched_congr rfl rfl
  · simp [recordPrune, Contents.perform]
  · simp only [recordPrune, OrderedTable.getElem?_insert_eq, if_neg other]
    exact represents.lastGc
  · exact represents.exact.of_chunks rfl rfl rfl (fun _ _ found => .inl found)
      fun id entry found _ => mem_chunks_iff_chunkEntry.mpr ⟨entry, found⟩

end Disks

section Steps

variable {blake3 : Blake3} {redb : Redb} {start contents : Contents} {attempts : List Attempt}
  {call : Option Call} {machine next : Machine}

/-- Whatever is left of the call in progress, this is what it has come to. -/
theorem Standing.recovered {phase : Phase} (standing : Standing start attempts phase contents) :
    Recovered start attempts contents := by
  cases standing with
  | between _ recovered => exact recovered
  | pending _ recovered => exact .lost _ recovered
  | pruning recovered planned => exact .cutShort recovered ⟨_, planned⟩

theorem Standing.rest {phase after : Phase} (standing : Standing start attempts phase contents)
    (between : after.Between) : Standing start attempts after contents :=
  .between between standing.recovered

/-- The disk holds what the calls have come to. -/
structure Follows (blake3 : Blake3) (start : Contents) (attempts : List Attempt)
    (machine : Machine) (contents : Contents) : Prop where
  standing : Standing start attempts machine.phase contents
  represents : Represents blake3 machine.disk contents

theorem note_of_commits {begun : Call} (committed : commits redb machine = true) :
    note redb (attempts ++ [⟨begun, false⟩]) ⟨machine, .event .commit, next⟩ =
      attempts ++ [⟨begun, true⟩] := by
  simp [note, committed, List.modifyLast_concat]

theorem note_of_not_commits (refused : commits redb machine = false) :
    note redb attempts ⟨machine, .event .commit, next⟩ = attempts := by
  simp [note, refused]

theorem between_rest_sweeping (names : List Ulid) : (Phase.rest .sweeping names).Between := by
  cases names <;> trivial

theorem between_rest_unlinking (ids : List ChunkId) : (Phase.rest .unlinking ids).Between := by
  cases ids <;> trivial

theorem between_afterFailure (phase : Phase) : phase.afterFailure.Between := by
  cases phase <;> trivial

theorem settle_of_error {transaction : Transaction} {error : StoreError} {done : Phase}
    {refused : StoreError → Phase}
    (failed : transaction.result machine.disk.tables = .error error) :
    machine.settle redb transaction done refused = { machine with phase := refused error } := by
  simp only [Machine.settle, failed]

theorem settle_of_ok {transaction : Transaction} {tables : Tables} {done : Phase}
    {refused : StoreError → Phase}
    (succeeded : transaction.result machine.disk.tables = .ok tables) :
    machine.settle redb transaction done refused =
      if redb.accepts tables then { machine with disk.tables := tables, phase := done }
      else { machine with phase := refused .index } := by
  simp only [Machine.settle, succeeded]

theorem fits_of_accepts {tables : Tables} (accepted : redb.accepts tables = true) :
    (liveRefs tables).length < 2 ^ 64 :=
  Nat.lt_of_le_of_lt (length_liveRefs_le_refBytes tables) (redb.addressable tables accepted)

/-- A begun call is still to be committed. -/
theorem Follows.begins (follows : Follows blake3 start attempts machine contents)
    (begun : Call) :
    Follows blake3 start (attempts ++ [⟨begun, false⟩]) (machine.start begun) contents := by
  have recovered := follows.standing.recovered
  have represents := follows.represents
  refine ⟨?_, by rwa [disk_start]⟩
  cases begun with
  | putChunk tmp id data =>
      simp only [Machine.start]
      split
      next => exact .pending rfl recovered
      next => exact .pending rfl recovered
  | putSnapshotAs snapshot blob refs owner => exact .pending rfl recovered
  | deleteSnapshot snapshot => exact .pending rfl recovered
  | deleteChunk id => exact .pending rfl recovered
  | prune nowMs policy mode =>
      have planned : [] ++ (prunePlan nowMs policy (listSnapshots machine.disk.tables)).drop =
          (prunePlan nowMs policy contents.live.keys).drop := by
        rw [represents.keys_eq, List.nil_append]
      exact .pruning recovered planned
  | gc nowMs grace => exact .pending rfl recovered

/-- The commit of a call that is one transaction. -/
theorem Follows.commit {transaction : Transaction}
    (follows : Follows blake3 start attempts machine contents)
    (current : machine.phase = .committing transaction)
    (sound : machine.phase.Sound blake3 call machine.disk machine.temps) :
    ∃ after, Follows blake3 start (note redb attempts ⟨machine, .event .commit, next⟩)
      (machine.settle redb transaction
        (.rest .unlinking (unlinks machine.disk.tables transaction)) fun _ => .idle) after := by
  obtain ⟨standing, represents⟩ := follows
  cases outcome : transaction.result machine.disk.tables with
  | error error =>
      have refused : commits redb machine = false := by simp [commits, current, outcome]
      rw [note_of_not_commits refused, settle_of_error outcome]
      exact ⟨contents, standing.rest trivial, represents⟩
  | ok tables =>
      rw [settle_of_ok outcome]
      cases accepted : redb.accepts tables with
      | false =>
          have refused : commits redb machine = false := by
            simp [commits, current, outcome, accepted]
          rw [note_of_not_commits refused]
          exact ⟨contents, standing.rest trivial, represents⟩
      | true =>
          have committed : commits redb machine = true := by
            simp [commits, current, outcome, accepted]
          rw [current] at standing sound
          cases standing with
          | between between _ => exact between.elim
          | @pending earlier _ _ begun operation recovered =>
              rw [note_of_commits committed]
              refine ⟨_, .between (between_rest_unlinking _) (.applied begun recovered), ?_⟩
              exact represents_of_commit represents operation sound outcome
                (fits_of_accepts accepted)

/-- A deletion of a prune. -/
theorem Follows.drop {nowMs : Int64} {mode : PruneMode} {snapshot : Ulid} {rest : List Ulid}
    (follows : Follows blake3 start attempts machine contents)
    (current : machine.phase = .pruning nowMs mode (snapshot :: rest)) :
    ∃ after, Follows blake3 start (note redb attempts ⟨machine, .event .commit, next⟩)
      (machine.settle redb (.deleteSnapshot snapshot) (.pruning nowMs mode rest)
        (pruneRefused nowMs mode rest)) after := by
  obtain ⟨standing, represents⟩ := follows
  have uncommitted : commits redb machine = false := by simp [commits, current]
  rw [note_of_not_commits uncommitted]
  obtain ⟨-, onward⟩ := represents.deleteSnapshot snapshot
  have standingIdle : Standing start attempts .idle contents := standing.rest trivial
  rw [current] at standing
  cases standing with
  | between between _ => exact between.elim
  | pending operation _ => cases operation
  | @pruning earlier base _ policy _ dropped _ recovered planned =>
      have advanced : Standing start (earlier ++ [⟨.prune nowMs policy mode, false⟩])
          (.pruning nowMs mode rest)
          ((base.performAll (dropped.map .deleteSnapshot)).perform (.deleteSnapshot snapshot)).2 := by
        have planned' : (dropped ++ [snapshot]) ++ rest =
            (prunePlan nowMs policy base.live.keys).drop := by
          rw [← planned, List.append_assoc, List.singleton_append]
        have standing : Standing start (earlier ++ [⟨.prune nowMs policy mode, false⟩])
            (.pruning nowMs mode rest)
            (base.performAll ((dropped ++ [snapshot]).map .deleteSnapshot)) :=
          .pruning recovered planned'
        rwa [List.map_append, Contents.performAll_append] at standing
      have deletes : (Transaction.deleteSnapshot snapshot).result machine.disk.tables =
          Store.deleteSnapshot machine.disk.tables snapshot := rfl
      simp only [Operation.run, ← deletes] at onward
      cases outcome : (Transaction.deleteSnapshot snapshot).result machine.disk.tables with
      | error error =>
          rw [settle_of_error outcome]
          rw [outcome] at onward
          cases error with
          | snapshotNotFound gone => exact ⟨_, advanced, onward⟩
          | _ => exact ⟨_, standingIdle, represents⟩
      | ok tables =>
          rw [settle_of_ok outcome]
          rw [outcome] at onward
          split
          next => exact ⟨_, advanced, onward⟩
          next => exact ⟨_, standingIdle, represents⟩

/-- The last commit of a prune. -/
theorem Follows.record {nowMs : Int64} {mode : PruneMode}
    (follows : Follows blake3 start attempts machine contents)
    (current : machine.phase = .pruning nowMs mode []) :
    ∃ after, Follows blake3 start (note redb attempts ⟨machine, .event .commit, next⟩)
      (machine.settle redb (.recordPrune nowMs mode) .idle fun _ => .idle) after := by
  obtain ⟨standing, represents⟩ := follows
  have outcome : (Transaction.recordPrune nowMs mode).result machine.disk.tables =
      .ok (recordPrune machine.disk.tables nowMs mode) := rfl
  rw [settle_of_ok outcome]
  cases accepted : redb.accepts (recordPrune machine.disk.tables nowMs mode) with
  | false =>
      have refused : commits redb machine = false := by simp [commits, current, accepted]
      rw [note_of_not_commits refused]
      exact ⟨contents, standing.rest trivial, represents⟩
  | true =>
      have committed : commits redb machine = true := by simp [commits, current, accepted]
      rw [current] at standing
      cases standing with
      | between between _ => exact between.elim
      | pending operation _ => cases operation
      | @pruning earlier base _ policy _ dropped _ recovered planned =>
          rw [List.append_nil] at planned
          subst planned
          rw [note_of_commits committed]
          exact ⟨_, .between trivial (.applied _ recovered), represents_recordPrune represents⟩

theorem Follows.step {event : Event} (follows : Follows blake3 start attempts machine contents)
    (sound : Sound blake3 call machine)
    (stepped : Crash.step blake3 redb machine event = some next) :
    ∃ after, Follows blake3 start (note redb attempts ⟨machine, .event event, next⟩) next after := by
  have standing := follows.standing
  have represents := follows.represents
  have phaseSound := sound.phase
  cases stepped_of_step stepped with
  | opened => exact ⟨contents, standing.rest (between_rest_sweeping _), represents⟩
  | swept => exact ⟨contents, standing.rest (between_rest_sweeping _), represents⟩
  | called begun => exact ⟨contents, follows.begins begun⟩
  | wrote => exact ⟨contents, standing, represents⟩
  | synced current =>
      rw [current] at standing
      cases standing with
      | between between _ => exact between.elim
      | pending operation recovered => exact ⟨contents, .pending operation recovered, represents⟩
  | renamed current =>
      rw [current] at standing phaseSound
      obtain ⟨-, fresh, -⟩ := phaseSound
      cases standing with
      | between between _ => exact between.elim
      | pending operation recovered =>
          refine ⟨contents, .pending operation recovered, objects_congr represents rfl ?_⟩
          intro other indexed
          rw [OrderedTable.getElem?_insert_eq, if_neg]
          exact fun same => fresh (same ▸ indexed)
  | committed current => exact follows.commit current phaseSound
  | dropped current => exact follows.drop current
  | recorded current => exact follows.record current
  | unlinked current pending =>
      rw [current] at phaseSound
      refine ⟨contents, standing.rest (between_rest_unlinking _), objects_congr represents rfl ?_⟩
      intro other indexed
      rw [OrderedTable.getElem?_erase_eq, if_neg]
      exact fun same => phaseSound _ pending (same ▸ indexed)
  | failed cleaned =>
      refine ⟨contents, standing.rest (between_afterFailure _), ?_⟩
      cases cleaned with
      | false => exact represents
      | true => simpa using represents
  | crashed => exact ⟨contents, standing.rest trivial, represents⟩

/-- A move is a step, or a failed rename after which the call goes on or
returns. -/
theorem move_cases {event : Move} (moved : move blake3 redb machine event = some next) :
    (∃ base, event = .event base ∧ step blake3 redb machine base = some next) ∨
      ∃ seen cleaned tmp id data, event = .renameFails seen cleaned ∧
        machine.phase = .synced tmp id data ∧ next.disk = machine.disk ∧
        next.phase = if seen then .committing (.putChunk id data) else .idle := by
  cases event with
  | event base => exact .inl ⟨base, rfl, moved⟩
  | renameFails seen cleaned =>
      simp only [move] at moved
      split at moved
      next tmp id data current =>
        have left : (if cleaned then machine.cleanTmp else machine).disk = machine.disk := by
          split
          next => exact disk_cleanTmp machine
          next => rfl
        cases seen with
        | false =>
            cases moved
            exact .inr ⟨false, cleaned, tmp, id, data, rfl, current, left, rfl⟩
        | true =>
            simp only [if_true] at moved
            split at moved
            next =>
              cases moved
              exact .inr ⟨true, cleaned, tmp, id, data, rfl, current, left, rfl⟩
            next => cases moved
      next => cases moved

theorem Sound.move {event : Move} (sound : Sound blake3 call machine)
    (kept : KeepsObject blake3 ⟨machine, event, next⟩)
    (moved : Crash.move blake3 redb machine event = some next) :
    ∃ after, Sound blake3 after next := by
  obtain ⟨base, rfl, stepped⟩ | ⟨seen, cleaned, tmp, id, data, rfl, current, sameDisk, phase⟩ :=
    move_cases moved
  · exact ⟨_, sound.step stepped⟩
  · refine ⟨call, sameDisk ▸ sound.exact, ?_⟩
    rw [phase, sameDisk]
    cases seen with
    | false => trivial
    | true =>
        have held : machine.disk.objects[id]? = some (objectBytes blake3 data) := by
          apply kept (id, data)
          simp [keptFor, current]
        have phaseSound := sound.phase
        rw [current] at phaseSound
        exact ⟨⟨tmp, phaseSound.1⟩, .inr held⟩

theorem Follows.move {event : Move} (follows : Follows blake3 start attempts machine contents)
    (sound : Sound blake3 call machine)
    (moved : Crash.move blake3 redb machine event = some next) :
    ∃ after, Follows blake3 start (note redb attempts ⟨machine, event, next⟩) next after := by
  obtain ⟨base, rfl, stepped⟩ | ⟨seen, cleaned, tmp, id, data, rfl, current, sameDisk, phase⟩ :=
    move_cases moved
  · exact follows.step sound stepped
  · obtain ⟨standing, represents⟩ := follows
    refine ⟨contents, ?_, sameDisk ▸ represents⟩
    rw [phase]
    cases seen with
    | false => exact standing.rest trivial
    | true =>
        rw [current] at standing
        cases standing with
        | between between _ => exact between.elim
        | pending operation recovered => exact .pending operation recovered

end Steps

section Runs

variable {blake3 : Blake3} {redb : Redb} {start : Contents} {machine final : Machine}
  {events : List Event} {moves : List Move}

theorem attemptsOf_concat (history : List (Visit Machine Move)) (visit : Visit Machine Move) :
    attemptsOf redb (history ++ [visit]) = note redb (attemptsOf redb history) visit := by
  simp [attemptsOf]

/-- From a disk that holds contents, every run leaves what its calls come
to. -/
theorem exists_follows_of_run (represents : Represents blake3 machine.disk start)
    (down : machine.phase = .down)
    (kept : ∀ visit ∈ visits (move blake3 redb) machine moves, KeepsObject blake3 visit)
    (executed : run (move blake3 redb) machine moves = some final) :
    ∃ contents, Follows blake3 start (attemptsOf redb (visits (move blake3 redb) machine moves))
      final contents := by
  have invariant : (∀ visit ∈ visits (move blake3 redb) machine moves, KeepsObject blake3 visit) →
      (∃ call, Sound blake3 call final) ∧ ∃ contents,
        Follows blake3 start (attemptsOf redb (visits (move blake3 redb) machine moves))
          final contents := by
    refine run_induction (fun reached current =>
      (∀ visit ∈ visits (move blake3 redb) machine reached, KeepsObject blake3 visit) →
      (∃ call, Sound blake3 call current) ∧ ∃ contents, Follows blake3 start
        (attemptsOf redb (visits (move blake3 redb) machine reached)) current contents)
      ?_ ?_ executed
    · intro _
      refine ⟨⟨none, represents.exact, ?_⟩, start, ?_, represents⟩
      · rw [down]
        trivial
      · rw [down]
        exact .between trivial .untouched
    · intro reached middle event next before earlier stepped kept
      rw [visits_concat before stepped, List.forall_mem_append] at kept
      obtain ⟨keptBefore, keptNow⟩ := kept
      obtain ⟨⟨call, sound⟩, contents, follows⟩ := earlier keptBefore
      rw [visits_concat before stepped, attemptsOf_concat]
      exact ⟨sound.move (keptNow _ (List.mem_singleton_self _)) stepped,
        follows.move sound stepped⟩
  exact (invariant kept).2

/-- Every begun call is an attempt, and no other. -/
theorem map_operation_note (attempts : List Attempt) (visit : Visit Machine Move) :
    (note redb attempts visit).map Attempt.operation =
      attempts.map Attempt.operation ++ visit.event.operation?.toList := by
  obtain ⟨before, event, after⟩ := visit
  cases event with
  | renameFails seen cleaned => simp [note, Move.operation?]
  | event event =>
      cases event with
      | call call => simp [note, Move.operation?, Event.operation?, Attempt.operation]
      | commit =>
          simp only [note, Move.operation?, Event.operation?, Option.toList_none, List.append_nil]
          split
          next =>
            induction attempts using List.reverseRecOn with
            | nil => rfl
            | append_singleton earlier last _ =>
                rw [List.modifyLast_concat, List.map_append, List.map_append]
                rfl
          next => rfl
      | _ => simp [note, Move.operation?, Event.operation?]

theorem map_operation_attemptsOf
    (executed : run (move blake3 redb) machine moves = some final) :
    (attemptsOf redb (visits (move blake3 redb) machine moves)).map Attempt.operation =
      moves.filterMap Move.operation? := by
  refine run_induction (fun reached _ =>
    (attemptsOf redb (visits (move blake3 redb) machine reached)).map Attempt.operation =
      reached.filterMap Move.operation?) rfl ?_ executed
  intro reached middle event next before held stepped
  rw [visits_concat before stepped, attemptsOf_concat, map_operation_note, held,
    List.filterMap_append]
  cases called : event.operation? <;> simp [called]

/-- Where every rename replaces, a run is one of the store's own steps. -/
theorem run_event (machine : Machine) (events : List Event) :
    run (move blake3 redb) machine (events.map .event) = run (step blake3 redb) machine events := by
  induction events generalizing machine with
  | nil => rfl
  | cons event rest inductionHypothesis =>
      simp only [List.map_cons, run, move]
      cases step blake3 redb machine event with
      | none => rfl
      | some next => exact inductionHypothesis next

theorem keepsObject_of_event {visit : Visit Machine Move}
    (visited : visit ∈ visits (move blake3 redb) machine (events.map .event)) :
    KeepsObject blake3 visit := by
  obtain ⟨event, -, same⟩ := List.mem_map.mp (visit_event_mem visited)
  intro kept isKept
  rw [keptFor, ← same] at isKept
  cases isKept

/-- The calls come to some of their operations, and to deletions. -/
theorem Recovered.exists_operations {attempts : List Attempt} {contents : Contents}
    (recovered : Recovered start attempts contents) :
    ∃ operations, contents = start.performAll operations ∧
      totalReferences operations ≤ totalReferences (attempts.map Attempt.operation) ∧
      ∀ operation ∈ operations, operation ∈ attempts.map Attempt.operation ∨
        ∃ snapshot, operation = .deleteSnapshot snapshot := by
  induction recovered with
  | untouched => exact ⟨[], rfl, Nat.le_refl _, by simp⟩
  | applied call _ inductionHypothesis =>
      obtain ⟨operations, rfl, counted, known⟩ := inductionHypothesis
      refine ⟨operations ++ [call.operation], ?_, ?_, ?_⟩
      · rw [Contents.performAll_append]
        rfl
      · simp only [totalReferences, List.map_append, List.sum_append] at counted ⊢
        exact Nat.add_le_add counted (Nat.le_refl _)
      · intro operation listed
        rw [List.map_append, List.mem_append]
        rcases List.mem_append.mp listed with earlier | last
        · exact (known operation earlier).imp_left .inl
        · exact .inl (.inr last)
  | lost call _ inductionHypothesis =>
      obtain ⟨operations, same, counted, known⟩ := inductionHypothesis
      refine ⟨operations, same, ?_, ?_⟩
      · simp only [totalReferences, List.map_append, List.sum_append] at counted ⊢
        exact Nat.le_add_right_of_le counted
      · intro operation listed
        rw [List.map_append, List.mem_append]
        exact (known operation listed).imp_left .inl
  | @cutShort _ _ _ _ _ dropped _ _ inductionHypothesis =>
      obtain ⟨operations, rfl, counted, known⟩ := inductionHypothesis
      refine ⟨operations ++ dropped.map .deleteSnapshot, ?_, ?_, ?_⟩
      · rw [Contents.performAll_append]
      · have free : totalReferences (dropped.map Operation.deleteSnapshot) = 0 := by
          simp [totalReferences, Operation.references, Function.comp_def]
        simp only [totalReferences, List.map_append, List.sum_append] at counted free ⊢
        rw [free]
        exact Nat.le_add_right_of_le counted
      · intro operation listed
        rw [List.map_append, List.mem_append]
        rcases List.mem_append.mp listed with earlier | deletion
        · exact (known operation earlier).imp_left .inl
        · obtain ⟨snapshot, -, rfl⟩ := List.mem_map.mp deletion
          exact .inr ⟨snapshot, rfl⟩

/-- Calls that may fail or crash anywhere are some of their operations. -/
theorem exists_operations_of_run (represents : Represents blake3 machine.disk start)
    (down : machine.phase = .down)
    (executed : run (step blake3 redb) machine events = some final) :
    ∃ operations, Represents blake3 final.disk (start.performAll operations) ∧
      totalReferences operations ≤ totalReferences (operationsOf events) ∧
      ∀ operation ∈ operations, operation ∈ operationsOf events ∨
        ∃ snapshot, operation = .deleteSnapshot snapshot := by
  rw [← run_event] at executed
  obtain ⟨contents, standing, held⟩ := exists_follows_of_run represents down
    (fun _ visited => keepsObject_of_event visited) executed
  obtain ⟨operations, rfl, counted, known⟩ := standing.recovered.exists_operations
  rw [map_operation_attemptsOf executed, List.filterMap_map] at counted known
  exact ⟨operations, held, counted, known⟩

/-- A store whose calls fail or crash anywhere holds what the committed calls
say: each of the others changed nothing, but for the first deletions of a
prune. -/
theorem interrupted_calls_are_all_or_nothing
    (kept : ∀ visit ∈ visits (move blake3 redb) .empty moves, KeepsObject blake3 visit)
    (executed : run (move blake3 redb) .empty moves = some final) :
    ∃ contents,
      Recovered .empty (attemptsOf redb (visits (move blake3 redb) .empty moves)) contents ∧
      Represents blake3 final.disk contents := by
  obtain ⟨contents, standing, represents⟩ :=
    exists_follows_of_run represents_empty rfl kept executed
  exact ⟨contents, standing.recovered, represents⟩

end Runs

/-- An upload fails, another finds its file left by a deletion that was cut
off, and a prune that is to drop two snapshots of a cell dies after the
first. -/
def cutPruneRun (chunk : ChunkId) : List Move :=
  [.event .openStore, .event (.call (.putSnapshotAs (.fromParts 1 0) [1] [] none)),
    .event .commit, .event (.call (.putSnapshotAs (.fromParts 2 0) [2] [] none)),
    .event .commit, .event (.call (.putSnapshotAs (.fromParts 3 0) [3] [] none)),
    .event .commit, .event (.call (.putChunk (.fromParts 4 0) chunk [])), .event (.write 20),
    .event (.fail true), .event (.call (.putChunk (.fromParts 5 0) chunk [])),
    .event (.write 32), .event .sync, .event .rename, .event .commit,
    .event (.call (.deleteChunk chunk)), .event .commit, .event .crash, .event .openStore,
    .event (.call (.putChunk (.fromParts 6 0) chunk [])), .event (.write 32), .event .sync,
    .renameFails true false, .event .commit,
    .event (.call (.prune 1000 .defaultGrid .auto)), .event .commit, .event .crash]

theorem cut_prune_keeps_the_other_snapshots :
    ∃ final, run (move .onEmpty .full) .empty (cutPruneRun ⟨.replicate 32 7⟩) = some final ∧
      listSnapshots final.disk.tables = [.fromParts 2 0, .fromParts 3 0] ∧
      getChunk .onEmpty final.disk ⟨.replicate 32 7⟩ = .ok [] ∧
      ∃ contents,
        Recovered .empty (attemptsOf .full
          (visits (move .onEmpty .full) .empty (cutPruneRun ⟨.replicate 32 7⟩))) contents ∧
        Represents .onEmpty final.disk contents := by
  have checked : ∃ final,
      run (move .onEmpty .full) .empty (cutPruneRun ⟨.replicate 32 7⟩) = some final ∧
        listSnapshots final.disk.tables = [.fromParts 2 0, .fromParts 3 0] ∧
        getChunk .onEmpty final.disk ⟨.replicate 32 7⟩ = .ok [] :=
    exists_final_of_any (by decide +kernel)
  have kept : ((visits (move .onEmpty .full) .empty (cutPruneRun ⟨.replicate 32 7⟩)).all
      fun visit => decide (KeepsObject .onEmpty visit)) = true := by
    decide +kernel
  obtain ⟨final, executed, listed, read⟩ := checked
  refine ⟨final, executed, listed, read, interrupted_calls_are_all_or_nothing ?_ executed⟩
  intro visit visited
  exact of_decide_eq_true (List.all_eq_true.mp kept visit visited)

end Busyncr.Store.Crash
