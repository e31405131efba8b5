import Busyncr.Store.CrashRuns

/-!
Storing a chunk over an orphan object.

A crash between the removal of an index entry and the unlink leaves the
object file of an earlier blob.  `write_object` renames over it, but where
the rename fails and the file is there it keeps the file and succeeds, while
the index records the length of the new blob.
-/

namespace Busyncr.Store

open Std

/-- What `fs::rename` onto the object path did. -/
inductive RenameOutcome where
  | replaced
  | failed
deriving DecidableEq

/-- The object files after `write_object`; `none` is its I/O error. -/
def writeObject (blake3 : Blake3) (rename : RenameOutcome) (objects : ExtTreeMap ChunkId Bytes)
    (id : ChunkId) (data : Bytes) : Option (ExtTreeMap ChunkId Bytes) :=
  match rename with
  | .replaced => some (objects.insert id (objectBytes blake3 data))
  | .failed => if id ∈ objects then some objects else none

/-- `put_chunk` with the outcome of its rename; an I/O error drops the
transaction. -/
def putChunkOver (blake3 : Blake3) (rename : RenameOutcome) (disk : Disk) (id : ChunkId)
    (data : Bytes) : Option (Bool × Disk) :=
  if id ∈ disk.tables.chunks then
    some (false, disk)
  else
    (writeObject blake3 rename disk.objects id data).map fun objects =>
      (true, { tables := indexChunk disk.tables id data, objects := objects })

variable {blake3 : Blake3} {rename : RenameOutcome} {disk : Disk} {id : ChunkId} {data : Bytes}

/-- A rename that replaces is the one the store's other results assume. -/
theorem putChunkOver_replaced :
    putChunkOver blake3 .replaced disk id data = some (putChunk blake3 disk id data) := by
  unfold putChunkOver putChunk
  split <;> rfl

theorem writeObject_eq_some_iff {objects written : ExtTreeMap ChunkId Bytes} :
    writeObject blake3 rename objects id data = some written ↔
      (rename = .replaced ∧ written = objects.insert id (objectBytes blake3 data)) ∨
        rename = .failed ∧ id ∈ objects ∧ written = objects := by
  cases rename <;> simp [writeObject, eq_comm]

theorem putChunkOver_eq_stored_iff {next : Disk} :
    putChunkOver blake3 rename disk id data = some (true, next) ↔
      id ∉ disk.tables.chunks ∧
        ∃ objects, writeObject blake3 rename disk.objects id data = some objects ∧
          next = { tables := indexChunk disk.tables id data, objects := objects } := by
  unfold putChunkOver
  split
  next indexed => simp [indexed]
  next fresh => simp [fresh, eq_comm]

/-- Over a file it cannot replace, `put_chunk` indexes the new blob and keeps
the old file. -/
theorem putChunkOver_kept {raw : Bytes} (fresh : id ∉ disk.tables.chunks)
    (held : disk.objects[id]? = some raw) :
    putChunkOver blake3 .failed disk id data =
      some (true, { tables := indexChunk disk.tables id data, objects := disk.objects }) := by
  have present : id ∈ disk.objects := by
    rw [ExtTreeMap.mem_iff_isSome_getElem?, held]
    rfl
  refine putChunkOver_eq_stored_iff.mpr ⟨fresh, disk.objects, ?_, rfl⟩
  exact writeObject_eq_some_iff.mpr (.inr ⟨rfl, present, rfl⟩)

/-- Reading a chunk just stored depends on the file alone. -/
theorem getChunk_indexChunk_iff {objects : ExtTreeMap ChunkId Bytes} :
    getChunk blake3 { tables := indexChunk disk.tables id data, objects := objects } id =
        .ok data ↔ objects[id]? = some (objectBytes blake3 data) := by
  have indexed : chunkEntry (indexChunk disk.tables id data).chunks id = some (newEntry data) := by
    simp [indexChunk, chunkEntry_insert]
  rw [getChunk_eq_ok_iff]
  simp [indexed, newEntry]

/-- A stored chunk reads back as its data exactly when the chunk was indexed
already, or the rename replaces the file, or the file kept in its place
holds the same object. -/
theorem getChunk_of_putChunkOver_iff (blake3 : Blake3) (rename : RenameOutcome) (disk : Disk)
    (id : ChunkId) (data : Bytes) :
    (∀ next, putChunkOver blake3 rename disk id data = some (true, next) →
      getChunk blake3 next id = .ok data) ↔
      id ∈ disk.tables.chunks ∨ rename = .replaced ∨
        ∀ raw, disk.objects[id]? = some raw → raw = objectBytes blake3 data := by
  constructor
  · intro agrees
    by_cases indexed : id ∈ disk.tables.chunks
    · exact .inl indexed
    cases rename with
    | replaced => exact .inr (.inl rfl)
    | failed =>
        refine .inr (.inr fun raw held => ?_)
        have loaded := agrees _ (putChunkOver_kept indexed held)
        rw [getChunk_indexChunk_iff, held] at loaded
        exact Option.some.inj loaded
  · intro condition next stored
    obtain ⟨fresh, objects, written, rfl⟩ := putChunkOver_eq_stored_iff.mp stored
    rw [getChunk_indexChunk_iff]
    rcases writeObject_eq_some_iff.mp written with ⟨_, rfl⟩ | ⟨failure, present, rfl⟩
    · simp
    · rcases condition with indexed | replaces | same
      · exact absurd indexed fresh
      · rw [failure] at replaces
        cases replaces
      · obtain ⟨raw, held⟩ := Option.isSome_iff_exists.mp
          (ExtTreeMap.mem_iff_isSome_getElem?.mp present)
        rw [held, same raw held]

end Busyncr.Store

namespace Busyncr.Store.Crash

open Transition

theorem mem_of_lastCall {blake3 : Blake3} {redb : Redb} {events : List Event} {call : Call}
    {final : Machine} (executed : run (step blake3 redb) .empty events = some final)
    (last : lastCall (visits (step blake3 redb) .empty events) = some call) :
    .call call ∈ events := by
  revert last
  refine run_induction (fun reached _ =>
    lastCall (visits (step blake3 redb) .empty reached) = some call → .call call ∈ reached)
    ?_ ?_ executed
  · intro last
    simp [visits, lastCall] at last
  · intro reached machine event next before earlier stepped last
    rw [visits_concat before stepped, lastCall_concat] at last
    cases event with
    | call begun =>
        cases last
        simp
    | _ => exact List.mem_append_left _ (earlier last)

/-- Whatever crashes happened, a file at an object path is the whole object
of a blob some call passed for this ID, not always the last one. -/
theorem object_of_earlier_call {blake3 : Blake3} {redb : Redb} {events : List Event}
    {final : Machine} (executed : run (step blake3 redb) .empty events = some final)
    {id : ChunkId} {raw : Bytes} (held : final.disk.objects[id]? = some raw) :
    ∃ tmp data, .call (.putChunk tmp id data) ∈ events ∧ raw = objectBytes blake3 data := by
  revert held
  refine run_induction (fun reached machine => machine.disk.objects[id]? = some raw →
    ∃ tmp data, .call (.putChunk tmp id data) ∈ reached ∧ raw = objectBytes blake3 data)
    ?_ ?_ executed
  · intro held
    simp [Machine.empty, Disk.empty] at held
  · intro reached machine event next before earlier stepped held
    have widen : machine.disk.objects[id]? = some raw → ∃ tmp data,
        .call (.putChunk tmp id data) ∈ reached ++ [event] ∧ raw = objectBytes blake3 data := by
      intro standing
      obtain ⟨tmp, data, called, same⟩ := earlier standing
      exact ⟨tmp, data, List.mem_append_left _ called, same⟩
    cases effect_step stepped with
    | untouched same => exact widen (same ▸ held)
    | renamed tmp target data content current complete same =>
        rw [same, OrderedTable.getElem?_insert_eq] at held
        split at held
        next isTarget =>
          subst isTarget
          have sound := (filed_of_run before).1.phase
          rw [current] at sound
          obtain ⟨began, _, whole⟩ := sound
          rw [complete] at whole
          refine ⟨tmp, data, List.mem_append_left _ (mem_of_lastCall before began), ?_⟩
          exact (Option.some.inj held).symm.trans (Option.some.inj whole)
        next => exact widen held
    | committed transaction current accepted same =>
        rw [same] at held
        exact widen held
    | unlinked ids target current pending same =>
        rw [same, OrderedTable.getElem?_erase_eq] at held
        split at held
        next => cases held
        next => exact widen held

/-- A chunk is stored and deleted, and the process dies before the unlink. -/
def deletedRun (chunk : ChunkId) : List Event :=
  [.openStore, .call (.putChunk (.fromParts 1 0) chunk [1]), .write 33, .sync, .rename, .commit,
    .call (.deleteChunk chunk), .commit, .crash, .openStore]

/-- Where the rename over the orphan fails, the chunk is reported as stored
and cannot be read. -/
theorem chunk_stored_over_orphan_unreadable :
    ∃ final next,
      run (step blake3OnOrphan .full) .empty (deletedRun ⟨.replicate 32 7⟩) = some final ∧
      putChunkOver blake3OnOrphan .failed final.disk ⟨.replicate 32 7⟩ [] = some (true, next) ∧
      getChunk blake3OnOrphan next ⟨.replicate 32 7⟩ =
        .error (.integrity (.lengthMismatch ⟨.replicate 32 7⟩ 0 1)) := by
  have checked : ∃ final,
      run (step blake3OnOrphan .full) .empty (deletedRun ⟨.replicate 32 7⟩) = some final ∧
        ⟨.replicate 32 7⟩ ∉ final.disk.tables.chunks ∧
        final.disk.objects[(⟨.replicate 32 7⟩ : ChunkId)]? =
          some (objectBytes blake3OnOrphan [1]) :=
    exists_final_of_any (by decide +kernel)
  obtain ⟨final, executed, fresh, held⟩ := checked
  refine ⟨final, _, executed, putChunkOver_kept fresh held, ?_⟩
  simp only [getChunk, indexChunk, chunkEntry_insert, if_true, held]
  decide +kernel

end Busyncr.Store.Crash
