import Busyncr.Store.Crash
import Mathlib.Algebra.Order.BigOperators.Group.List

/-!
What survives crashes.

An indexed chunk keeps the file its entry was created with: files change
under a name only while the name is not indexed.  With exact refcounts the
chunks of a live snapshot stay indexed, so a snapshot stays restorable.
-/

namespace Busyncr.Store.Crash

open Std Transition

/-- The chunk is indexed and its file holds these bytes. -/
structure Filed (blake3 : Blake3) (disk : Disk) (id : ChunkId) (data : Bytes) : Prop where
  indexed : ∃ entry, chunkEntry disk.tables.chunks id = some entry ∧
    entry.chunkLen = UInt64.ofNat data.length
  written : disk.objects[id]? = some (objectBytes blake3 data)

theorem Filed.mem_chunks {blake3 : Blake3} {disk : Disk} {id : ChunkId} {data : Bytes}
    (filed : Filed blake3 disk id data) : id ∈ disk.tables.chunks := by
  obtain ⟨entry, found, _⟩ := filed.indexed
  exact mem_chunks_iff_chunkEntry.mpr ⟨entry, found⟩

/-- The call in progress after an event. -/
def Event.lastCall (call : Option Call) : Event → Option Call
  | .call begun => some begun
  | _ => call

/-- What the current step relies on: it is a step of the call in progress, a
file is written under a name, or unlinked, only while the chunk is not
indexed, and an index entry is created only over its finished file. -/
def Phase.Sound (blake3 : Blake3) (call : Option Call) (disk : Disk)
    (temps : ExtTreeMap Ulid Bytes) : Phase → Prop
  | .writing tmp id data =>
      call = some (.putChunk tmp id data) ∧ id ∉ disk.tables.chunks
  | .synced tmp id data =>
      call = some (.putChunk tmp id data) ∧ id ∉ disk.tables.chunks ∧
        temps[tmp]? = some (objectBytes blake3 data)
  | .committing (.putChunk id data) =>
      (∃ tmp, call = some (.putChunk tmp id data)) ∧
        (id ∈ disk.tables.chunks ∨ disk.objects[id]? = some (objectBytes blake3 data))
  | .committing (.putSnapshotAs snapshot blob refs owner) =>
      call = some (.putSnapshotAs snapshot blob refs owner)
  | .committing _ => True
  | .unlinking ids => ∀ id ∈ ids, id ∉ disk.tables.chunks
  | .down => True
  | .sweeping _ => True
  | .idle => True
  | .pruning _ _ _ => True

structure Sound (blake3 : Blake3) (call : Option Call) (machine : Machine) : Prop where
  exact : RefcountExact machine.disk.tables
  phase : machine.phase.Sound blake3 call machine.disk machine.temps

/-- The transaction a commit runs. -/
def Phase.transaction? : Phase → Option Transaction
  | .committing transaction => some transaction
  | .pruning _ _ (snapshot :: _) => some (.deleteSnapshot snapshot)
  | .pruning nowMs mode [] => some (.recordPrune nowMs mode)
  | _ => none

/-- A transaction is that of a single call, or a step of a prune. -/
theorem Phase.cases_of_transaction? {phase : Phase} {transaction : Transaction}
    (current : phase.transaction? = some transaction) :
    phase = .committing transaction ∨ (∃ snapshot, transaction = .deleteSnapshot snapshot) ∨
      ∃ nowMs mode, transaction = .recordPrune nowMs mode := by
  unfold Phase.transaction? at current
  split at current
  next => exact .inl (by cases current; rfl)
  next _ _ snapshot _ => exact .inr (.inl ⟨snapshot, by cases current; rfl⟩)
  next nowMs mode => exact .inr (.inr ⟨nowMs, mode, by cases current; rfl⟩)
  next => cases current

/-- What a step does to the disk. -/
inductive Effect (redb : Redb) (machine next : Machine) : Prop where
  | untouched : next.disk = machine.disk → Effect redb machine next
  | renamed (tmp : Ulid) (id : ChunkId) (data content : Bytes) :
      machine.phase = .synced tmp id data → machine.temps[tmp]? = some content →
      next.disk = { machine.disk with objects := machine.disk.objects.insert id content } →
      Effect redb machine next
  | committed (transaction : Transaction) :
      machine.phase.transaction? = some transaction →
      redb.accepts (transaction.commit machine.disk.tables) = true →
      next.disk = { machine.disk with tables := transaction.commit machine.disk.tables } →
      Effect redb machine next
  | unlinked (ids : List ChunkId) (id : ChunkId) :
      machine.phase = .unlinking ids → id ∈ ids →
      next.disk = { machine.disk with objects := machine.disk.objects.erase id } →
      Effect redb machine next

@[simp]
theorem disk_start (machine : Machine) (call : Call) : (machine.start call).disk = machine.disk := by
  cases call with
  | putChunk tmp id data =>
      simp only [Machine.start]
      split <;> rfl
  | putSnapshotAs snapshot blob refs owner => rfl
  | deleteSnapshot snapshot => rfl
  | deleteChunk id => rfl
  | prune nowMs policy mode => rfl
  | gc nowMs grace => rfl

@[simp]
theorem disk_cleanTmp (machine : Machine) : machine.cleanTmp.disk = machine.disk := by
  unfold Machine.cleanTmp
  split <;> rfl

/-- A settled transaction is committed, or the disk is as before. -/
theorem effect_settle {redb : Redb} {machine : Machine} {transaction : Transaction} {done : Phase}
    {refused : StoreError → Phase} (current : machine.phase.transaction? = some transaction) :
    Effect redb machine (machine.settle redb transaction done refused) := by
  unfold Machine.settle
  cases outcome : transaction.result machine.disk.tables with
  | error error => exact .untouched rfl
  | ok tables =>
      simp only
      split
      next accepted =>
        rw [← Transaction.commit_of_ok outcome] at accepted ⊢
        exact .committed transaction current accepted rfl
      next refusal => exact .untouched rfl

/-- Everything a step can do, and where the process stands for it. -/
inductive Stepped (blake3 : Blake3) (redb : Redb) (machine : Machine) : Event → Machine → Prop where
  | opened (down : machine.phase = .down) :
      Stepped blake3 redb machine .openStore
        { machine with phase := .rest .sweeping machine.temps.keys }
  | swept {names : List Ulid} {name : Ulid} (current : machine.phase = .sweeping names)
      (listed : name ∈ names) :
      Stepped blake3 redb machine (.sweep name) { machine with
        temps := machine.temps.erase name
        phase := .rest .sweeping (names.erase name) }
  | called (call : Call) (idle : machine.phase = .idle) :
      Stepped blake3 redb machine (.call call) (machine.start call)
  | wrote {tmp : Ulid} {id : ChunkId} {data : Bytes} (count : Nat)
      (current : machine.phase = .writing tmp id data) :
      Stepped blake3 redb machine (.write count) { machine with
        temps := machine.temps.insert tmp
          ((objectBytes blake3 data).take ((machine.temps[tmp]?.getD []).length + count)) }
  | synced {tmp : Ulid} {id : ChunkId} {data : Bytes}
      (current : machine.phase = .writing tmp id data)
      (complete : machine.temps[tmp]? = some (objectBytes blake3 data)) :
      Stepped blake3 redb machine .sync { machine with phase := .synced tmp id data }
  | renamed {tmp : Ulid} {id : ChunkId} {data content : Bytes}
      (current : machine.phase = .synced tmp id data) (held : machine.temps[tmp]? = some content) :
      Stepped blake3 redb machine .rename
        { disk := { machine.disk with objects := machine.disk.objects.insert id content }
          temps := machine.temps.erase tmp
          phase := .committing (.putChunk id data) }
  | committed {transaction : Transaction} (current : machine.phase = .committing transaction) :
      Stepped blake3 redb machine .commit (machine.settle redb transaction
        (.rest .unlinking (unlinks machine.disk.tables transaction)) fun _ => .idle)
  | dropped {nowMs : Int64} {mode : PruneMode} {snapshot : Ulid} {rest : List Ulid}
      (current : machine.phase = .pruning nowMs mode (snapshot :: rest)) :
      Stepped blake3 redb machine .commit (machine.settle redb (.deleteSnapshot snapshot)
        (.pruning nowMs mode rest) (pruneRefused nowMs mode rest))
  | recorded {nowMs : Int64} {mode : PruneMode} (current : machine.phase = .pruning nowMs mode []) :
      Stepped blake3 redb machine .commit
        (machine.settle redb (.recordPrune nowMs mode) .idle fun _ => .idle)
  | unlinked {ids : List ChunkId} {id : ChunkId} (current : machine.phase = .unlinking ids)
      (pending : id ∈ ids) :
      Stepped blake3 redb machine (.unlink id) { machine with
        disk := { machine.disk with objects := machine.disk.objects.erase id }
        phase := .rest .unlinking (ids.erase id) }
  | failed (cleaned : Bool) :
      Stepped blake3 redb machine (.fail cleaned)
        { (if cleaned then machine.cleanTmp else machine) with
          phase := machine.phase.afterFailure }
  | crashed : Stepped blake3 redb machine .crash { machine with phase := .down }

theorem stepped_of_step {blake3 : Blake3} {redb : Redb} {machine next : Machine} {event : Event}
    (stepped : step blake3 redb machine event = some next) :
    Stepped blake3 redb machine event next := by
  cases event with
  | openStore =>
      simp only [step] at stepped
      split at stepped
      next down =>
        cases stepped
        exact .opened down
      next => cases stepped
  | sweep name =>
      simp only [step] at stepped
      split at stepped
      next current =>
        split at stepped
        next listed =>
          cases stepped
          exact .swept current listed
        next => cases stepped
      next => cases stepped
  | call call =>
      simp only [step] at stepped
      split at stepped
      next idle =>
        cases stepped
        exact .called call idle
      next => cases stepped
  | write count =>
      simp only [step] at stepped
      split at stepped
      next current =>
        cases stepped
        exact .wrote count current
      next => cases stepped
  | sync =>
      simp only [step] at stepped
      split at stepped
      next current =>
        split at stepped
        next complete =>
          cases stepped
          exact .synced current complete
        next => cases stepped
      next => cases stepped
  | rename =>
      simp only [step] at stepped
      split at stepped
      next current =>
        obtain ⟨content, held, rfl⟩ := Option.map_eq_some_iff.mp stepped
        exact .renamed current held
      next => cases stepped
  | commit =>
      simp only [step] at stepped
      split at stepped
      next current =>
        cases stepped
        exact .committed current
      next current =>
        cases stepped
        exact .dropped current
      next current =>
        cases stepped
        exact .recorded current
      next => cases stepped
  | unlink id =>
      simp only [step] at stepped
      split at stepped
      next current =>
        split at stepped
        next pending =>
          cases stepped
          exact .unlinked current pending
        next => cases stepped
      next => cases stepped
  | fail cleaned =>
      simp only [step] at stepped
      split at stepped
      next =>
        cases stepped
        exact .failed cleaned
      next => cases stepped
  | crash =>
      cases stepped
      exact .crashed

theorem effect_step {blake3 : Blake3} {redb : Redb} {machine next : Machine} {event : Event}
    (stepped : step blake3 redb machine event = some next) : Effect redb machine next := by
  cases stepped_of_step stepped with
  | opened => exact .untouched rfl
  | swept => exact .untouched rfl
  | called call => exact .untouched (disk_start machine call)
  | wrote => exact .untouched rfl
  | synced => exact .untouched rfl
  | renamed current held => exact .renamed _ _ _ _ current held rfl
  | committed current => exact effect_settle (by rw [current]; rfl)
  | dropped current => exact effect_settle (by rw [current]; rfl)
  | recorded current => exact effect_settle (by rw [current]; rfl)
  | unlinked current pending => exact .unlinked _ _ current pending rfl
  | failed cleaned =>
      refine .untouched ?_
      cases cleaned with
      | false => rfl
      | true => exact disk_cleanTmp machine
  | crashed => exact .untouched rfl

/-- The references of a store that fits the database fit a counter. -/
theorem length_liveRefs_le_refBytes (tables : Tables) :
    (liveRefs tables).length ≤ refBytes tables := by
  rw [liveRefs, List.length_flatMap, refBytes]
  apply List.sum_le_sum
  intro snapshot _
  exact length_decodeRefs_le _

theorem Effect.exact {redb : Redb} {machine next : Machine} (effect : Effect redb machine next)
    (exact : RefcountExact machine.disk.tables) : RefcountExact next.disk.tables := by
  cases effect with
  | untouched same => rwa [same]
  | renamed tmp id data content _ _ same => rwa [same]
  | committed transaction _ accepted same =>
      rw [same]
      apply exact.commit transaction
      calc
        (liveRefs (transaction.commit machine.disk.tables)).length ≤
            refBytes (transaction.commit machine.disk.tables) := length_liveRefs_le_refBytes _
        _ < 2 ^ 64 := redb.addressable _ accepted
  | unlinked ids id _ _ same => rwa [same]

/-- A chunk that stays indexed keeps its file. -/
theorem Effect.filed {blake3 : Blake3} {redb : Redb} {machine next : Machine}
    (effect : Effect redb machine next) {call : Option Call} (sound : Sound blake3 call machine)
    {id : ChunkId}
    {data : Bytes} (filed : Filed blake3 machine.disk id data)
    (indexed : id ∈ next.disk.tables.chunks) : Filed blake3 next.disk id data := by
  have phaseSound := sound.phase
  cases effect with
  | untouched same => rwa [same]
  | renamed tmp other fresh content current held same =>
      rw [current] at phaseSound
      have different : other ≠ id := by
        rintro rfl
        exact phaseSound.2.1 filed.mem_chunks
      rw [same]
      refine ⟨filed.indexed, ?_⟩
      rw [OrderedTable.getElem?_insert_eq, if_neg different]
      exact filed.written
  | committed transaction current accepted same =>
      rw [same] at indexed ⊢
      obtain ⟨entry, found, recorded⟩ := filed.indexed
      obtain ⟨kept, lookup, unchanged⟩ := chunkLen_commit found indexed
      exact ⟨⟨kept, lookup, unchanged.trans recorded⟩, filed.written⟩
  | unlinked ids other current pending same =>
      rw [current] at phaseSound
      have different : other ≠ id := by
        rintro rfl
        exact phaseSound other pending filed.mem_chunks
      rw [same]
      refine ⟨filed.indexed, ?_⟩
      rw [OrderedTable.getElem?_erase_eq, if_neg different]
      exact filed.written

/-- An index entry is created over the finished file of its `put_chunk`. -/
theorem Effect.created {blake3 : Blake3} {redb : Redb} {machine next : Machine}
    (effect : Effect redb machine next) {call : Option Call} (sound : Sound blake3 call machine)
    {id : ChunkId}
    (fresh : id ∉ machine.disk.tables.chunks) (indexed : id ∈ next.disk.tables.chunks) :
    ∃ tmp data, call = some (.putChunk tmp id data) ∧ Filed blake3 next.disk id data := by
  cases effect with
  | untouched same => exact absurd (same ▸ indexed) fresh
  | renamed tmp other bytes content _ _ same => exact absurd (by simpa [same] using indexed) fresh
  | unlinked ids other _ _ same => exact absurd (by simpa [same] using indexed) fresh
  | committed transaction current accepted same =>
      rw [same] at indexed ⊢
      rcases mem_chunks_commit indexed with before | ⟨data, rfl⟩
      · exact absurd before fresh
      · have committing : machine.phase = .committing (.putChunk id data) := by
          rcases Phase.cases_of_transaction? current with same | ⟨_, other⟩ | ⟨_, _, other⟩
          · exact same
          · cases other
          · cases other
        have phaseSound := sound.phase
        rw [committing] at phaseSound
        obtain ⟨⟨tmp, current⟩, written⟩ := phaseSound
        refine ⟨tmp, data, current, ⟨newEntry data, ?_, rfl⟩, ?_⟩
        · simp [Transaction.commit, Transaction.result, fresh, indexChunk, chunkEntry_insert]
        · exact written.resolve_left fresh

/-- A snapshot that stays live keeps its blob and its references. -/
theorem Effect.snapshot {redb : Redb} {machine next : Machine} (effect : Effect redb machine next)
    {snapshot : Ulid} (live : snapshot ∈ machine.disk.tables.snapshots)
    (stillLive : snapshot ∈ next.disk.tables.snapshots) :
    next.disk.tables.snapshots[snapshot]? = machine.disk.tables.snapshots[snapshot]? ∧
      next.disk.tables.refsOf snapshot = machine.disk.tables.refsOf snapshot := by
  cases effect with
  | untouched same => rw [same]; exact ⟨rfl, rfl⟩
  | renamed tmp id data content _ _ same => rw [same]; exact ⟨rfl, rfl⟩
  | unlinked ids id _ _ same => rw [same]; exact ⟨rfl, rfl⟩
  | committed transaction _ _ same =>
      rw [same] at stillLive ⊢
      obtain ⟨sameBlob, sameRefs, _⟩ := snapshot_commit live stillLive
      exact ⟨sameBlob, sameRefs⟩

/-- A snapshot is stored by the commit of its `put_snapshot_as`. -/
theorem Effect.stored {blake3 : Blake3} {redb : Redb} {machine next : Machine}
    (effect : Effect redb machine next) {call : Option Call} (sound : Sound blake3 call machine)
    {snapshot : Ulid} (fresh : snapshot ∉ machine.disk.tables.snapshots)
    (live : snapshot ∈ next.disk.tables.snapshots) :
    ∃ blob refs owner, call = some (.putSnapshotAs snapshot blob refs owner) ∧
      next.disk.tables.snapshots[snapshot]? = some blob ∧
      next.disk.tables.refsOf snapshot = refs := by
  cases effect with
  | untouched same => exact absurd (same ▸ live) fresh
  | renamed tmp id data content _ _ same => exact absurd (by simpa [same] using live) fresh
  | unlinked ids id _ _ same => exact absurd (by simpa [same] using live) fresh
  | committed transaction current _ same =>
      rw [same] at live ⊢
      obtain ⟨blob, refs, owner, rfl, sameBlob, sameRefs⟩ := mem_snapshots_commit fresh live
      refine ⟨blob, refs, owner, ?_, sameBlob, sameRefs⟩
      have phaseSound := sound.phase
      rcases Phase.cases_of_transaction? current with committing | ⟨_, other⟩ | ⟨_, _, other⟩
      · rwa [committing] at phaseSound
      · cases other
      · cases other

section PhaseSound

variable {blake3 : Blake3} {call : Option Call} {disk : Disk} {temps : ExtTreeMap Ulid Bytes}

theorem Phase.sound_sweeping (names : List Ulid) :
    (Phase.rest .sweeping names).Sound blake3 call disk temps := by
  cases names <;> trivial

theorem Phase.sound_unlinking {ids : List ChunkId} (unindexed : ∀ id ∈ ids, id ∉ disk.tables.chunks) :
    (Phase.rest .unlinking ids).Sound blake3 call disk temps := by
  cases ids with
  | nil => trivial
  | cons id rest => exact unindexed

theorem Phase.sound_afterFailure (phase : Phase) :
    phase.afterFailure.Sound blake3 call disk temps := by
  cases phase <;> trivial

theorem pruneRefused_sound (nowMs : Int64) (mode : PruneMode) (rest : List Ulid)
    (error : StoreError) : (pruneRefused nowMs mode rest error).Sound blake3 call disk temps := by
  cases error <;> trivial

end PhaseSound

/-- What a committed transaction leaves to unlink is not indexed. -/
theorem not_mem_chunks_of_mem_unlinks {tables next : Tables} {transaction : Transaction}
    {id : ChunkId} (pending : id ∈ unlinks tables transaction)
    (committed : transaction.result tables = .ok next) : id ∉ next.chunks := by
  cases transaction with
  | deleteChunk chunk =>
      obtain ⟨_, _, _, rfl⟩ := deleteChunk_ok committed
      obtain rfl := List.mem_singleton.mp pending
      simp [ExtTreeMap.mem_erase]
  | gc nowMs grace =>
      cases committed
      exact not_mem_chunks_gc pending
  | putChunk chunk data => simp [unlinks] at pending
  | putSnapshotAs snapshot blob refs owner => simp [unlinks] at pending
  | deleteSnapshot snapshot => simp [unlinks] at pending
  | recordPrune nowMs mode => simp [unlinks] at pending

/-- A settled transaction leaves a sound phase if both ways on are sound. -/
theorem phase_settle {blake3 : Blake3} {call : Option Call} {redb : Redb} {machine : Machine}
    {transaction : Transaction} {done : Phase} {refused : StoreError → Phase}
    (doneSound : ∀ tables, transaction.result machine.disk.tables = .ok tables →
      done.Sound blake3 call { machine.disk with tables := tables } machine.temps)
    (refusedSound : ∀ error, (refused error).Sound blake3 call machine.disk machine.temps) :
    (machine.settle redb transaction done refused).phase.Sound blake3 call
      (machine.settle redb transaction done refused).disk
      (machine.settle redb transaction done refused).temps := by
  unfold Machine.settle
  cases outcome : transaction.result machine.disk.tables with
  | error error => exact refusedSound error
  | ok tables =>
      simp only
      split
      next => exact doneSound tables outcome
      next => exact refusedSound .index

theorem phase_start {blake3 : Blake3} (machine : Machine) (call : Call) :
    (machine.start call).phase.Sound blake3 (some call) (machine.start call).disk
      (machine.start call).temps := by
  cases call with
  | putChunk tmp id data =>
      simp only [Machine.start]
      split
      next occupied => exact ⟨⟨tmp, rfl⟩, .inl occupied⟩
      next fresh => exact ⟨rfl, fresh⟩
  | putSnapshotAs snapshot blob refs owner => rfl
  | deleteSnapshot snapshot => trivial
  | deleteChunk id => trivial
  | prune nowMs policy mode => trivial
  | gc nowMs grace => trivial

theorem Sound.step {blake3 : Blake3} {redb : Redb} {call : Option Call} {machine next : Machine}
    {event : Event} (sound : Sound blake3 call machine)
    (stepped : Crash.step blake3 redb machine event = some next) :
    Sound blake3 (event.lastCall call) next := by
  refine ⟨(effect_step stepped).exact sound.exact, ?_⟩
  have phaseSound := sound.phase
  cases stepped_of_step stepped with
  | opened => exact Phase.sound_sweeping _
  | swept => exact Phase.sound_sweeping _
  | called begun => exact phase_start machine begun
  | wrote count current =>
      rw [current] at phaseSound
      simp only [current]
      exact phaseSound
  | synced current complete =>
      rw [current] at phaseSound
      exact ⟨phaseSound.1, phaseSound.2, complete⟩
  | renamed current held =>
      rw [current] at phaseSound
      obtain ⟨began, fresh, complete⟩ := phaseSound
      rw [complete] at held
      cases held
      refine ⟨⟨_, began⟩, .inr ?_⟩
      simp
  | committed =>
      refine phase_settle (fun tables committed => ?_) fun _ => trivial
      apply Phase.sound_unlinking
      intro id pending
      exact not_mem_chunks_of_mem_unlinks pending committed
  | dropped => exact phase_settle (fun _ _ => trivial) (pruneRefused_sound _ _ _)
  | recorded => exact phase_settle (fun _ _ => trivial) fun _ => trivial
  | unlinked current pending =>
      rw [current] at phaseSound
      apply Phase.sound_unlinking
      intro other left
      exact phaseSound other (List.mem_of_mem_erase left)
  | failed => exact Phase.sound_afterFailure machine.phase
  | crashed => trivial

abbrev History := List (Visit Machine Event)

/-- The call in progress after a history. -/
def lastCall (history : History) : Option Call :=
  history.foldl (fun call visit => visit.event.lastCall call) none

/-- The current index entry of the chunk was created by a `put_chunk` call
that passed these bytes. -/
def CreatedWith (history : History) (id : ChunkId) (data : Bytes) : Prop :=
  ∃ before visit after, history = before ++ visit :: after ∧
    id ∉ visit.before.disk.tables.chunks ∧ id ∈ visit.after.disk.tables.chunks ∧
    (∀ later ∈ after, id ∈ later.after.disk.tables.chunks) ∧
    ∃ tmp, lastCall before = some (.putChunk tmp id data)

theorem lastCall_concat (history : History) (visit : Visit Machine Event) :
    lastCall (history ++ [visit]) = visit.event.lastCall (lastCall history) := by
  simp [lastCall]

/-- An entry that is still there was created as before. -/
theorem CreatedWith.concat {history : History} {id : ChunkId} {data : Bytes}
    (created : CreatedWith history id data) {visit : Visit Machine Event}
    (indexed : id ∈ visit.after.disk.tables.chunks) :
    CreatedWith (history ++ [visit]) id data := by
  obtain ⟨before, creation, after, rfl, fresh, entered, kept, call⟩ := created
  refine ⟨before, creation, after ++ [visit], by simp, fresh, entered, ?_, call⟩
  intro later membership
  rcases List.mem_append.mp membership with earlier | last
  · exact kept later earlier
  · rw [List.mem_singleton.mp last]
    exact indexed

section Runs

variable {blake3 : Blake3} {redb : Redb} {events : List Event} {final : Machine}

theorem sound_empty : Sound blake3 none .empty := ⟨refcountExact_empty, trivial⟩

/-- Every state of a run is sound, and every indexed chunk has the file it
was created with. -/
theorem filed_of_run (executed : run (step blake3 redb) .empty events = some final) :
    Sound blake3 (lastCall (visits (step blake3 redb) .empty events)) final ∧
      ∀ id ∈ final.disk.tables.chunks, ∃ data,
        CreatedWith (visits (step blake3 redb) .empty events) id data ∧
          Filed blake3 final.disk id data := by
  refine run_induction (fun reached machine =>
    Sound blake3 (lastCall (visits (step blake3 redb) .empty reached)) machine ∧
      ∀ id ∈ machine.disk.tables.chunks, ∃ data,
        CreatedWith (visits (step blake3 redb) .empty reached) id data ∧
          Filed blake3 machine.disk id data) ?_ ?_ executed
  · refine ⟨sound_empty, ?_⟩
    intro id indexed
    simp [Machine.empty, Disk.empty, Tables.empty] at indexed
  · intro reached machine event next before held stepped
    obtain ⟨sound, filed⟩ := held
    have effect := effect_step stepped
    rw [visits_concat before stepped]
    refine ⟨?_, ?_⟩
    · rw [lastCall_concat]
      exact sound.step stepped
    · intro id indexed
      by_cases old : id ∈ machine.disk.tables.chunks
      · obtain ⟨data, created, file⟩ := filed id old
        exact ⟨data, created.concat indexed, effect.filed sound file indexed⟩
      · obtain ⟨tmp, data, call, file⟩ := effect.created sound old indexed
        refine ⟨data, ⟨_, _, [], rfl, old, indexed, ?_, tmp, call⟩, file⟩
        simp

end Runs

/-- BLAKE3 on the two blobs uploaded in `orphanRun`. -/
def blake3OnOrphan : Blake3 where
  hash data :=
    if data = [1] then
      #v[0x48, 0xfc, 0x72, 0x1f, 0xbb, 0xc1, 0x72, 0xe0, 0x92, 0x5f, 0xa2, 0x7a,
        0xf1, 0x67, 0x1d, 0xe2, 0x25, 0xba, 0x92, 0x71, 0x34, 0x80, 0x29, 0x98,
        0xb1, 0x0a, 0x15, 0x68, 0xa1, 0x88, 0x65, 0x2b]
    else Blake3.onEmpty.hash data
  keyedHash := Blake3.onEmpty.keyedHash

/-- A database that fills its address space. -/
def Redb.full : Redb where
  accepts tables := decide (refBytes tables < 2 ^ 64)
  addressable _ accepted := of_decide_eq_true accepted

end Busyncr.Store.Crash
