import Busyncr.Daemon.Interleaving

/-!
What holds of the index, the snapshots and the object files in every state
that concurrent calls reach.
-/

namespace Busyncr.Daemon

open Std Store Transition

/-- However the transactions of a run interleave, refcounts count the live
references, live references are indexed and the snapshot tables agree; so
neither reference loop meets its defensive branch. -/
theorem refcounts_exact_in_every_run (blake3 : Blake3) {events : List Event}
    {final : SharedStore} (executed : run (step blake3) .empty events = some final)
    (fits : ∀ visit ∈ visits (step blake3) .empty events,
      (liveRefs visit.after.disk.tables).length < 2 ^ 64) :
    RefcountExact final.disk.tables ∧
      (∀ snapshot before chunk after, snapshot ∈ final.disk.tables.snapshots →
        final.disk.tables.refsOf snapshot = before ++ chunk :: after →
          ∃ entry, chunkEntry (dropRefs before final.disk.tables.chunks) chunk = some entry ∧
            0 < entry.refcount.toNat) ∧
      ∀ snapshot refs before chunk after chunks entry,
        (liveRefs final.disk.tables).length + refs.length < 2 ^ 64 →
        refs = before ++ chunk :: after →
        bumpRefs snapshot before final.disk.tables.chunks = .ok chunks →
        chunkEntry chunks chunk = some entry → entry.refcount.toNat + 1 < 2 ^ 64 := by
  have exact : RefcountExact final.disk.tables := by
    refine tables_invariant RefcountExact refcountExact_empty ?_ executed
    intro visit visited transaction _ committed held
    have bound := fits visit visited
    rw [← committed] at bound ⊢
    exact held.commit transaction bound
  refine ⟨exact, ?_, ?_⟩
  · intro snapshot before chunk after live split
    exact exact.dropRefs_never_skips live split
  · rintro snapshot refs before chunk after chunks entry bound rfl taken found
    exact exact.bumpRefs_never_saturates bound taken found

/-- A chunk referenced twice by a snapshot that a prune keeps, a delete drops
and a gc then sweeps; before the gc unlinks its file another chunk is uploaded,
which a snapshot then refers to twice. -/
def sweepRun : List Event :=
  [.putChunk ⟨.replicate 32 7⟩ [],
    .putSnapshotAs (.fromParts 1 0) [] [⟨.replicate 32 7⟩, ⟨.replicate 32 7⟩] none,
    .prune 5 .defaultGrid .auto, .advance 0, .deleteSnapshot (.fromParts 1 0), .advance 0,
    .gc 10 (.fromSecs 1), .gc 1010 (.fromSecs 1), .putChunk ⟨.replicate 32 8⟩ [],
    .putSnapshotAs (.fromParts 2 0) [] [⟨.replicate 32 8⟩, ⟨.replicate 32 8⟩] none,
    .unlink 0 ⟨.replicate 32 7⟩]

theorem refcounts_exact_in_sweepRun :
    ∃ final, run (step .onEmpty) .empty sweepRun = some final ∧
      liveRefs final.disk.tables = [⟨.replicate 32 8⟩, ⟨.replicate 32 8⟩] ∧
      RefcountExact final.disk.tables := by
  have checked : ∃ final, run (step .onEmpty) .empty sweepRun = some final ∧
      liveRefs final.disk.tables = [⟨.replicate 32 8⟩, ⟨.replicate 32 8⟩] :=
    exists_final_of_any (by decide +kernel)
  obtain ⟨final, executed, references⟩ := checked
  exact ⟨final, executed, references,
    (refcounts_exact_in_every_run .onEmpty executed (by decide +kernel)).1⟩

/-- The files a call has still to unlink. -/
def InFlight.unlinks : InFlight → List ChunkId
  | .unlinking ids => ids
  | .listed _ _ _ _ => []
  | .dropping _ _ _ => []

/-- The files all calls in flight have still to unlink. -/
def pendingUnlinks (calls : List InFlight) : List ChunkId := calls.flatMap InFlight.unlinks

/-- Every indexed chunk has its file, and no pending unlink names an indexed
chunk. -/
structure FilesAgree (store : SharedStore) : Prop where
  filed : ∀ id ∈ store.disk.tables.chunks, id ∈ store.disk.objects
  unindexed : ∀ id ∈ pendingUnlinks store.calls, id ∉ store.disk.tables.chunks

/-- The chunks an event uploads. -/
def Event.uploads : Event → List ChunkId
  | .putChunk id _ => [id]
  | _ => []

/-- The event uploads no chunk whose file is about to be unlinked. -/
def UploadSettled (store : SharedStore) (event : Event) : Prop :=
  ∀ id ∈ event.uploads, id ∉ pendingUnlinks store.calls

instance (store : SharedStore) (event : Event) : Decidable (UploadSettled store event) :=
  inferInstanceAs (Decidable (∀ id ∈ event.uploads, id ∉ pendingUnlinks store.calls))

theorem mem_pendingUnlinks_iff {calls : List InFlight} {id : ChunkId} :
    id ∈ pendingUnlinks calls ↔ ∃ call ∈ calls, id ∈ call.unlinks := by
  simp [pendingUnlinks]

theorem pendingUnlinks_append (calls : List InFlight) (call : InFlight) :
    pendingUnlinks (calls ++ [call]) = pendingUnlinks calls ++ call.unlinks := by
  simp [pendingUnlinks]

/-- A step of one call leaves no unlink pending that was not. -/
theorem mem_pendingUnlinks_replaceCall {calls : List InFlight} {place : Nat} {call : InFlight}
    {rest : Option InFlight} {id : ChunkId} (found : calls[place]? = some call)
    (shrinks : ∀ left, rest = some left → ∀ other ∈ left.unlinks, other ∈ call.unlinks)
    (pending : id ∈ pendingUnlinks (replaceCall calls place rest)) :
    id ∈ pendingUnlinks calls := by
  rcases mem_pendingUnlinks_iff.mp pending with ⟨member, membership, names⟩
  cases rest with
  | none =>
      exact mem_pendingUnlinks_iff.mpr ⟨member, List.mem_of_mem_eraseIdx membership, names⟩
  | some left =>
      rcases List.mem_or_eq_of_mem_set membership with before | same
      · exact mem_pendingUnlinks_iff.mpr ⟨member, before, names⟩
      · subst same
        exact mem_pendingUnlinks_iff.mpr
          ⟨call, List.mem_of_getElem? found, shrinks member rfl id names⟩

/-- A step that indexes nothing new keeps the agreement, provided it unlinks
and schedules only files of chunks it leaves unindexed. -/
theorem FilesAgree.of_subset {store next : SharedStore} (agree : FilesAgree store)
    (chunks : ∀ id ∈ next.disk.tables.chunks, id ∈ store.disk.tables.chunks)
    (objects : ∀ id ∈ next.disk.tables.chunks, id ∈ store.disk.objects → id ∈ next.disk.objects)
    (pending : ∀ id ∈ pendingUnlinks next.calls,
      id ∈ pendingUnlinks store.calls ∨ id ∉ next.disk.tables.chunks) :
    FilesAgree next := by
  refine ⟨fun id indexed => ?_, fun id scheduled indexed => ?_⟩
  · exact objects id indexed (agree.filed id (chunks id indexed))
  · rcases pending id scheduled with before | unindexed
    · exact agree.unindexed id before (chunks id indexed)
    · exact unindexed indexed

/-- A transaction other than `put_chunk` keeps the agreement. -/
theorem FilesAgree.commit {store : SharedStore} (agree : FilesAgree store)
    {transaction : Transaction} (indexesNothing : ∀ id data, transaction ≠ .putChunk id data)
    {calls : List InFlight} (pending : ∀ id ∈ pendingUnlinks calls,
      id ∈ pendingUnlinks store.calls ∨ id ∉ (transaction.commit store.disk.tables).chunks) :
    FilesAgree { store.commit transaction with calls := calls } := by
  refine agree.of_subset (fun id indexed => ?_) (fun id _ filed => filed) pending
  rcases mem_chunks_commit indexed with before | ⟨data, same⟩
  · exact before
  · exact absurd same (indexesNothing id data)

theorem mem_pendingUnlinks_unlinkLater {store : SharedStore} {ids : List ChunkId} {id : ChunkId}
    (pending : id ∈ pendingUnlinks (store.unlinkLater ids).calls) :
    id ∈ pendingUnlinks store.calls ∨ id ∈ ids := by
  unfold SharedStore.unlinkLater at pending
  split at pending
  next none => exact .inl pending
  next some =>
    rw [pendingUnlinks_append, List.mem_append] at pending
    exact pending

/-- Uploading a chunk keeps the agreement unless an unlink of its file is
pending. -/
theorem FilesAgree.putChunk {store : SharedStore} (agree : FilesAgree store) (blake3 : Blake3)
    {id : ChunkId} (data : Bytes) (settled : id ∉ pendingUnlinks store.calls) :
    FilesAgree { store with disk := (Store.putChunk blake3 store.disk id data).2 } := by
  unfold Store.putChunk
  split
  next occupied => exact agree
  next fresh =>
    refine ⟨fun other indexed => ?_, fun other pending indexed => ?_⟩
    · rw [ExtTreeMap.mem_insert]
      rcases ExtTreeMap.mem_insert.mp indexed with same | before
      · exact .inl same
      · exact .inr (agree.filed other before)
    · rcases ExtTreeMap.mem_insert.mp indexed with same | before
      · exact settled (LawfulEqOrd.compare_eq_iff_eq.mp same ▸ pending)
      · exact agree.unindexed other pending before

/-- Only the calls in flight change, and no unlink joins them. -/
theorem FilesAgree.of_calls {store : SharedStore} (agree : FilesAgree store)
    {calls : List InFlight}
    (pending : ∀ id ∈ pendingUnlinks calls, id ∈ pendingUnlinks store.calls) :
    FilesAgree { store with calls := calls } :=
  ⟨agree.filed, fun id scheduled => agree.unindexed id (pending id scheduled)⟩

/-- A file scheduled for it goes, which no indexed chunk needs. -/
theorem FilesAgree.unlink {store : SharedStore} (agree : FilesAgree store) {place : Nat}
    {ids : List ChunkId} {id : ChunkId}
    (found : store.calls[place]? = some (.unlinking ids)) (named : id ∈ ids) :
    FilesAgree
      { disk := { store.disk with objects := store.disk.objects.erase id }
        calls := replaceCall store.calls place (unlinkingRest (ids.erase id)) } := by
  have scheduled : id ∈ pendingUnlinks store.calls :=
    mem_pendingUnlinks_iff.mpr ⟨_, List.mem_of_getElem? found, named⟩
  refine agree.of_subset (fun _ indexed => indexed) (fun other indexed filed => ?_)
    fun other pending => .inl ?_
  · refine ExtTreeMap.mem_erase.mpr ⟨fun same => ?_, filed⟩
    rw [LawfulEqOrd.compare_eq_iff_eq] at same
    exact agree.unindexed id scheduled (same ▸ indexed)
  · refine mem_pendingUnlinks_replaceCall found (fun left remains => ?_) pending
    unfold unlinkingRest at remains
    split at remains
    next finished => cases remains
    next unfinished =>
      cases remains
      intro other membership
      exact List.mem_of_mem_erase membership

/-- One step keeps the agreement of index and files, unless it uploads a
chunk whose file is about to be unlinked. -/
theorem FilesAgree.step {blake3 : Blake3} {store next : SharedStore} {event : Event}
    (agree : FilesAgree store)
    (settled : UploadSettled store event)
    (stepped : step blake3 store event = some next) : FilesAgree next := by
  cases storeStepped_of_step stepped with
  | uploaded id data => exact agree.putChunk blake3 data (settled id (by simp [Event.uploads]))
  | shipped => exact agree.commit (by simp) fun id pending => .inl pending
  | deleted => exact agree.commit (by simp) fun id pending => .inl pending
  | refused => exact agree
  | removed outcome =>
      obtain ⟨_, _, _, rfl⟩ := deleteChunk_ok outcome
      refine agree.of_subset (fun other indexed => ?_) (fun other _ filed => ?_)
        fun other pending => ?_
      · simp only [disk_unlinkLater] at indexed
        exact (ExtTreeMap.mem_erase.mp indexed).2
      · simpa using filed
      · rcases mem_pendingUnlinks_unlinkLater pending with before | deleted
        · exact .inl before
        · right
          rw [List.mem_singleton] at deleted
          simp [deleted, ExtTreeMap.mem_erase]
  | swept nowMs grace =>
      refine agree.of_subset (fun other indexed => ?_) (fun other _ filed => ?_)
        fun other pending => ?_
      · rw [disk_unlinkLater] at indexed
        have committed : other ∈ ((Transaction.gc nowMs grace).commit store.disk.tables).chunks :=
          indexed
        rcases mem_chunks_commit committed with before | ⟨_, impossible⟩
        · exact before
        · cases impossible
      · simpa using filed
      · rcases mem_pendingUnlinks_unlinkLater pending with before | reclaimed
        · exact .inl before
        · right
          rw [disk_unlinkLater]
          exact not_mem_chunks_gc reclaimed
  | begun =>
      refine agree.of_calls fun id pending => ?_
      rw [pendingUnlinks_append] at pending
      simpa [InFlight.unlinks] using pending
  | planned found =>
      refine agree.of_calls fun id pending => ?_
      exact mem_pendingUnlinks_replaceCall found (by simp [InFlight.unlinks]) pending
  | dropped found =>
      refine agree.commit (by simp) fun id pending => .inl ?_
      exact mem_pendingUnlinks_replaceCall found (by simp [InFlight.unlinks]) pending
  | recorded found =>
      refine agree.commit (by simp) fun id pending => .inl ?_
      exact mem_pendingUnlinks_replaceCall found (by simp) pending
  | unlinked found named => exact agree.unlink found named
  | aborted found =>
      refine agree.of_calls fun id pending => ?_
      exact mem_pendingUnlinks_replaceCall found (by simp) pending

/-- In every run in which no chunk is uploaded while an unlink of its file is
pending, every indexed chunk has its object file in every state reached, and
no read of a live reference finds its blob missing. -/
theorem files_agree_in_settled_runs (blake3 : Blake3) {events : List Event}
    {final : SharedStore} (executed : run (step blake3) .empty events = some final)
    (settled : ∀ visit ∈ visits (step blake3) .empty events,
      UploadSettled visit.before visit.event) :
    (∀ id ∈ final.disk.tables.chunks, id ∈ final.disk.objects) ∧
      ∀ id ∈ liveRefs final.disk.tables, ∀ chunk,
        getChunk blake3 final.disk id ≠ .error (.integrity (.missingBlob chunk)) := by
  have initial : FilesAgree .empty := by
    refine ⟨?_, ?_⟩ <;> simp [SharedStore.empty, Disk.empty, Tables.empty, pendingUnlinks]
  have agree : FilesAgree final := by
    refine run_invariant FilesAgree initial (fun visit visited held => ?_) executed
    exact held.step (settled visit visited) (visit_step visited)
  refine ⟨agree.filed, fun id _ chunk missing => ?_⟩
  rcases getChunk_eq_missingBlob_iff.mp missing with ⟨_, indexed, unfiled⟩
  exact unfiled (agree.filed id indexed)

theorem files_agree_in_sweepRun :
    ∃ final, run (step .onEmpty) .empty sweepRun = some final ∧
      ⟨.replicate 32 8⟩ ∈ final.disk.tables.chunks ∧
      ∀ id ∈ final.disk.tables.chunks, id ∈ final.disk.objects := by
  have checked : ∃ final, run (step .onEmpty) .empty sweepRun = some final ∧
      ⟨.replicate 32 8⟩ ∈ final.disk.tables.chunks :=
    exists_final_of_any (by decide +kernel)
  obtain ⟨final, executed, indexed⟩ := checked
  exact ⟨final, executed, indexed,
    (files_agree_in_settled_runs .onEmpty executed (by decide +kernel)).1⟩

/-- A gc commits its removal of a chunk; before it unlinks the file, the
chunk is uploaded again and a snapshot refers to it. -/
def reuploadRun (chunk : ChunkId) (snapshot : Ulid) : List Event :=
  [.putChunk chunk [], .gc 0 (.fromSecs 1), .gc 1000 (.fromSecs 1), .putChunk chunk [],
    .unlink 0 chunk, .putSnapshotAs snapshot [] [chunk] none]

theorem reuploaded_chunk_loses_its_file :
    ∃ final,
      run (step .onEmpty) .empty (reuploadRun ⟨.replicate 32 7⟩ (.fromParts 1 0)) = some final ∧
      final.calls = [] ∧ ⟨.replicate 32 7⟩ ∈ final.disk.tables.chunks ∧
      ⟨.replicate 32 7⟩ ∉ final.disk.objects ∧ ⟨.replicate 32 7⟩ ∈ liveRefs final.disk.tables ∧
      getChunk .onEmpty final.disk ⟨.replicate 32 7⟩ =
        .error (.integrity (.missingBlob ⟨.replicate 32 7⟩)) :=
  exists_final_of_any (by decide +kernel)

end Busyncr.Daemon
