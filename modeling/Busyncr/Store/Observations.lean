import Busyncr.Core.Manifest
import Busyncr.Store.Status

/-!
What a store answers after a run of operations, and what stays the same.

The answers are those of the contents, and the object directory holds one
file for each blob.  A snapshot that stays listed keeps its manifest and the
blobs it refers to.
-/

namespace Busyncr.Store

open Std

namespace Contents

def getManifestBlob (contents : Contents) (snapshot : Ulid) : Except StoreError Bytes :=
  match contents.live[snapshot]? with
  | none => .error (.snapshotNotFound snapshot)
  | some shipped => .ok shipped.blob

/-- The index record of a blob: its length and how often it is referred
to. -/
def chunkEntry (contents : Contents) (id : ChunkId) : Option IndexEntry :=
  contents.blobs[id]?.map fun data =>
    { chunkLen := UInt64.ofNat data.length
      refcount := UInt64.ofNat (contents.references.count id) }

/-- What a run of operations answers. -/
def answers (contents : Contents) : List Operation → List Outcome
  | [] => []
  | operation :: rest =>
      (contents.perform operation).1 :: (contents.perform operation).2.answers rest

end Contents

/-- The reading operations answer from the contents, and the files are those
of the blobs. -/
structure ReadsAs (blake3 : Blake3) (disk : Disk) (contents : Contents) : Prop where
  chunk : ∀ id, getChunk blake3 disk id = contents.getChunk id
  held : ∀ id, hasChunk disk.tables id = decide (id ∈ contents.blobs)
  entry : ∀ id, chunkEntry disk.tables.chunks id = contents.chunkEntry id
  manifest : ∀ snapshot, getManifestBlob disk.tables snapshot = contents.getManifestBlob snapshot
  listed : listSnapshots disk.tables = contents.live.keys
  zeroRef : zeroRefChunks disk.tables = contents.unreferenced
  files : ∀ id : ChunkId, disk.objects[id]? = contents.blobs[id]?.map (objectBytes blake3)

section Reading

variable {blake3 : Blake3} {disk : Disk} {contents : Contents}

theorem Represents.hasChunk_eq (represents : Represents blake3 disk contents) (id : ChunkId) :
    hasChunk disk.tables id = decide (id ∈ contents.blobs) := by
  rw [Bool.eq_iff_iff, decide_eq_true_eq, represents.mem_blobs_iff, hasChunk_iff]

theorem Represents.chunkEntry_eq (represents : Represents blake3 disk contents) (id : ChunkId) :
    chunkEntry disk.tables.chunks id = contents.chunkEntry id := by
  unfold Contents.chunkEntry
  cases found : chunkEntry disk.tables.chunks id with
  | none =>
      have absent : id ∉ contents.blobs := by
        rw [represents.mem_blobs_iff]
        exact chunkEntry_eq_none_iff.mp found
      rw [ExtTreeMap.getElem?_eq_none absent, Option.map_none]
  | some entry =>
      have indexed : id ∈ contents.blobs := by
        rw [represents.mem_blobs_iff, mem_chunks_iff_chunkEntry]
        exact ⟨entry, found⟩
      obtain ⟨data, held⟩ := Option.isSome_iff_exists.mp
        (ExtTreeMap.mem_iff_isSome_getElem?.mp indexed)
      rw [held, Option.map_some, ← represents.chunkLen_eq found held,
        ← represents.refcount_eq found, UInt64.ofNat_toNat]

theorem Represents.getManifestBlob_eq (represents : Represents blake3 disk contents)
    (snapshot : Ulid) :
    getManifestBlob disk.tables snapshot = contents.getManifestBlob snapshot := by
  rw [getManifestBlob, Contents.getManifestBlob, represents.snapshots]
  cases contents.live[snapshot]? <;> rfl

theorem zeroRefChunks_ascending (tables : Tables) :
    (zeroRefChunks tables).Pairwise fun left right => compare left right = .lt := by
  have indexed : (indexEntries tables).map Prod.fst = tables.chunks.keys := by
    rw [← ExtTreeMap.map_fst_toList_eq_keys, indexEntries, List.map_map]
    rfl
  have ordered : ((indexEntries tables).map Prod.fst).Pairwise
      fun left right => compare left right = .lt := by
    rw [indexed]
    exact ExtTreeMap.ordered_keys
  exact ordered.sublist (List.filter_sublist.map Prod.fst)

/-- The candidates of a gc come in the order of their IDs. -/
theorem Represents.zeroRefChunks_eq (represents : Represents blake3 disk contents) :
    zeroRefChunks disk.tables = contents.unreferenced := by
  have ordered : contents.unreferenced.Pairwise fun left right => compare left right = .lt :=
    ExtTreeMap.ordered_keys.sublist List.filter_sublist
  apply represents.perm_zeroRefChunks.eq_of_pairwise ?_ (zeroRefChunks_ascending _) ordered
  intro left right _ _ less greater
  exact absurd (TransCmp.lt_trans less greater) (by simp)

end Reading

section Files

variable {blake3 : Blake3} {disk : Disk} {contents : Contents}

/-- Every object file belongs to a blob. -/
def NoOrphans (disk : Disk) (contents : Contents) : Prop :=
  ∀ id ∈ disk.objects, id ∈ contents.blobs

theorem finish_objects (disk : Disk) (result : Except StoreError Tables) :
    (finish disk disk.objects result).2.objects = disk.objects := by
  cases result <;> rfl

theorem NoOrphans.of_same_files (owned : NoOrphans disk contents) {next : Disk}
    {after : Contents} (files : next.objects = disk.objects)
    (blobs : after.blobs = contents.blobs) : NoOrphans next after := by
  intro id filed
  rw [files] at filed
  rw [blobs]
  exact owned id filed

theorem blobs_putSnapshotAs (contents : Contents) (snapshot : Ulid) (blob : Bytes)
    (refs : List ChunkId) (owner : Option String) :
    (contents.perform (.putSnapshotAs snapshot blob refs owner)).2.blobs = contents.blobs := by
  simp only [Contents.perform]
  split
  next => rfl
  next => split <;> rfl

theorem blobs_deleteSnapshot (contents : Contents) (snapshot : Ulid) :
    (contents.perform (.deleteSnapshot snapshot)).2.blobs = contents.blobs := by
  simp only [Contents.perform]
  split <;> rfl

theorem NoOrphans.putChunk (represents : Represents blake3 disk contents)
    (owned : NoOrphans disk contents) (id : ChunkId) (data : Bytes) :
    NoOrphans ((Operation.putChunk id data).run blake3 disk).2
      (contents.perform (.putChunk id data)).2 := by
  simp only [Operation.run, Store.putChunk, Contents.perform, represents.mem_blobs_iff]
  split
  next => exact owned
  next =>
    intro other filed
    rcases ExtTreeMap.mem_insert.mp filed with same | before
    · exact ExtTreeMap.mem_insert.mpr (.inl same)
    · exact ExtTreeMap.mem_insert.mpr (.inr (owned other before))

theorem NoOrphans.deleteChunk (represents : Represents blake3 disk contents)
    (owned : NoOrphans disk contents) (id : ChunkId) :
    NoOrphans ((Operation.deleteChunk id).run blake3 disk).2
      (contents.perform (.deleteChunk id)).2 := by
  have answered := (represents.deleteChunk id).1
  simp only [Operation.run, Contents.perform] at answered ⊢
  cases ran : Store.deleteChunk disk.tables id with
  | error error =>
      rw [ran] at answered
      split
      next => exact owned
      next =>
        split
        next => exact owned
        next indexed unreferenced =>
          rw [if_neg indexed, if_neg unreferenced] at answered
          cases answered
  | ok next =>
      rw [ran] at answered
      split at answered
      next => cases answered
      next indexed =>
        split at answered
        next => cases answered
        next unreferenced =>
          rw [if_neg indexed, if_neg unreferenced]
          intro other filed
          have kept := ExtTreeMap.mem_erase.mp filed
          exact ExtTreeMap.mem_erase.mpr ⟨kept.1, owned other kept.2⟩

theorem NoOrphans.gc (represents : Represents blake3 disk contents)
    (owned : NoOrphans disk contents) (nowMs : Int64) (grace : Duration) :
    NoOrphans ((Operation.gc nowMs grace).run blake3 disk).2
      (contents.perform (.gc nowMs grace)).2 := by
  have unlinked (id : ChunkId) : id ∈ (Store.gc disk.tables nowMs grace).outcome.reclaimed ↔
      id ∈ contents.expired nowMs grace := by
    rw [Contents.mem_expired_iff, ← represents.expired_iff, ← mem_reclaimed_gc_iff]
    rfl
  intro id filed
  change id ∈ (contents.swept nowMs grace).blobs
  rw [Contents.mem_blobs_swept_iff, ← Contents.mem_expired_iff, ← unlinked]
  simp only [Operation.run, ExtTreeMap.mem_iff_isSome_getElem?,
    OrderedTable.getElem?_eraseAll] at filed
  split at filed
  next => cases filed
  next kept => exact ⟨owned id (ExtTreeMap.mem_iff_isSome_getElem?.mpr filed), kept⟩

theorem NoOrphans.run (represents : Represents blake3 disk contents)
    (owned : NoOrphans disk contents) (operation : Operation) :
    NoOrphans (operation.run blake3 disk).2 (contents.perform operation).2 := by
  cases operation with
  | putChunk id data => exact owned.putChunk represents id data
  | putSnapshotAs snapshot blob refs owner =>
      apply owned.of_same_files
      · exact finish_objects disk _
      · exact blobs_putSnapshotAs contents snapshot blob refs owner
  | deleteSnapshot snapshot =>
      apply owned.of_same_files
      · exact finish_objects disk _
      · exact blobs_deleteSnapshot contents snapshot
  | deleteChunk id => exact owned.deleteChunk represents id
  | prune nowMs policy mode => exact owned.of_same_files rfl rfl
  | gc nowMs grace => exact owned.gc represents nowMs grace

theorem Represents.files_eq (represents : Represents blake3 disk contents)
    (owned : NoOrphans disk contents) (id : ChunkId) :
    disk.objects[id]? = contents.blobs[id]?.map (objectBytes blake3) := by
  cases held : contents.blobs[id]? with
  | none =>
      have absent : id ∉ disk.objects := by
        intro filed
        have blob := ExtTreeMap.mem_iff_isSome_getElem?.mp (owned id filed)
        simp [held] at blob
      simp [ExtTreeMap.getElem?_eq_none absent]
  | some data =>
      have loaded := (represents.fetched id).trans (Contents.getChunk_eq_ok_iff.mpr held)
      exact (Store.getChunk_eq_ok_iff.mp loaded).2

theorem Represents.readsAs (represents : Represents blake3 disk contents)
    (owned : NoOrphans disk contents) : ReadsAs blake3 disk contents :=
  ⟨represents.fetched, represents.hasChunk_eq, represents.chunkEntry_eq,
    represents.getManifestBlob_eq, represents.keys_eq.symm, represents.zeroRefChunks_eq,
    represents.files_eq owned⟩

end Files

section Answers

variable {blake3 : Blake3} {storage : Storage} {disk final : Disk} {contents : Contents}
  {operations : List Operation}

/-- The answers a run gives. -/
def answersOf (storage : Storage) (blake3 : Blake3) (disk : Disk) (operations : List Operation) :
    List Outcome :=
  (Transition.visits (operate storage blake3) disk operations).map fun visit =>
    (visit.event.run blake3 visit.before).1

theorem operate_ok {operation : Operation} {next : Disk}
    (ran : operate storage blake3 disk operation = some next) :
    next = (operation.run blake3 disk).2 := by
  unfold operate at ran
  split at ran
  next => exact (Option.some.inj ran).symm
  next => cases ran

theorem Represents.answersOf (represents : Represents blake3 disk contents)
    (executed : Transition.run (Store.operate storage blake3) disk operations = some final) :
    Store.answersOf storage blake3 disk operations = contents.answers operations := by
  unfold Store.answersOf
  induction operations generalizing disk contents with
  | nil => rfl
  | cons operation rest inductionHypothesis =>
      obtain ⟨next, ran, continued⟩ := Transition.run_cons_eq_some executed
      obtain ⟨answered, onward⟩ := represents.operate ran
      rw [Transition.visits_cons ran, List.map_cons, Contents.answers, answered,
        inductionHypothesis onward continued]

theorem readsAs_contentsAfter
    (executed : Transition.run (operate storage blake3) .empty operations = some disk) :
    ReadsAs blake3 disk (contentsAfter operations) := by
  obtain ⟨represents, owned⟩ : Represents blake3 disk (contentsAfter operations) ∧
      NoOrphans disk (contentsAfter operations) := by
    refine Transition.run_refines
      (fun disk contents => Represents blake3 disk contents ∧ NoOrphans disk contents) _
      ⟨represents_empty, by simp [NoOrphans, Disk.empty]⟩ ?_ executed
    rintro before current operation after ⟨represents, owned⟩ ran
    refine ⟨(represents.operate ran).2, ?_⟩
    rw [operate_ok ran]
    exact owned.run represents operation
  exact represents.readsAs owned

/-- A run of operations gives the answers of the contents, and what is read
after it is what the contents hold. -/
theorem store_answers_from_contents (storage : Storage) (blake3 : Blake3)
    (operations : List Operation) (disk : Disk)
    (executed : Transition.run (operate storage blake3) .empty operations = some disk) :
    answersOf storage blake3 .empty operations = Contents.empty.answers operations ∧
      ReadsAs blake3 disk (contentsAfter operations) :=
  ⟨represents_empty.answersOf executed, readsAs_contentsAfter executed⟩

/-- A chunk stored twice, a snapshot of it, and a deletion that is refused. -/
def refusedOperations : List Operation :=
  [.putChunk ⟨.replicate 32 4⟩ [1, 2], .putChunk ⟨.replicate 32 4⟩ [3],
    .putSnapshotAs (.fromParts 3 3) [5] [⟨.replicate 32 4⟩] none,
    .deleteChunk ⟨.replicate 32 4⟩]

theorem store_answers_refusals :
    ∃ disk, Transition.run (operate largeStorage .onEmpty) .empty refusedOperations =
        some disk ∧
      answersOf largeStorage .onEmpty .empty refusedOperations =
        Contents.empty.answers refusedOperations ∧
      ReadsAs .onEmpty disk (contentsAfter refusedOperations) := by
  have enabled : (Transition.run (operate largeStorage .onEmpty) .empty
      refusedOperations).isSome := by decide +kernel
  obtain ⟨disk, executed⟩ := Option.isSome_iff_exists.mp enabled
  exact ⟨disk, executed,
    store_answers_from_contents largeStorage .onEmpty refusedOperations disk executed⟩

end Answers

section Stability

namespace Contents

variable {contents : Contents} {operation : Operation} {snapshot : Ulid} {shipped : Shipped}
  {id : ChunkId}

/-- Live snapshots refer to blobs the store holds. -/
def Closed (contents : Contents) : Prop := ∀ id ∈ contents.references, id ∈ contents.blobs

theorem mem_references_iff : id ∈ contents.references ↔
    ∃ (snapshot : Ulid) (shipped : Shipped), contents.live[snapshot]? = some shipped ∧
      id ∈ shipped.refs := by
  simp only [references, List.mem_flatMap, ExtTreeMap.mem_keys, ExtTreeMap.mem_iff_isSome_getElem?,
    refsOf]
  constructor
  · rintro ⟨snapshot, live, listed⟩
    obtain ⟨shipped, found⟩ := Option.isSome_iff_exists.mp live
    rw [found] at listed
    exact ⟨snapshot, shipped, found, listed⟩
  · rintro ⟨snapshot, shipped, found, listed⟩
    exact ⟨snapshot, by simp [found], by simpa [found] using listed⟩

/-- A snapshot that is live after an operation was live before it, or was put
by it over blobs the store holds. -/
theorem live_perform (found : (contents.perform operation).2.live[snapshot]? = some shipped) :
    contents.live[snapshot]? = some shipped ∨
      snapshot ∉ contents.live ∧ (∀ id ∈ shipped.refs, id ∈ contents.blobs) ∧
        operation = .putSnapshotAs snapshot shipped.blob shipped.refs shipped.owner := by
  cases operation with
  | putChunk id data =>
      simp only [perform] at found
      split at found <;> exact .inl found
  | putSnapshotAs put blob refs owner =>
      simp only [perform] at found
      split at found
      next => exact .inl found
      next fresh =>
        split at found
        next => exact .inl found
        next complete =>
          rw [OrderedTable.getElem?_insert_eq] at found
          split at found
          next same =>
            cases found
            subst same
            refine .inr ⟨fresh, fun id listed => ?_, rfl⟩
            simpa using List.find?_eq_none.mp complete id listed
          next => exact .inl found
  | deleteSnapshot deleted =>
      simp only [perform] at found
      split at found
      next =>
        rw [OrderedTable.getElem?_erase_eq] at found
        split at found
        next => cases found
        next => exact .inl found
      next => exact .inl found
  | deleteChunk id =>
      simp only [perform] at found
      split at found
      next => exact .inl found
      next => split at found <;> exact .inl found
  | prune nowMs policy mode =>
      simp only [perform, OrderedTable.getElem?_eraseAll] at found
      split at found
      next => cases found
      next => exact .inl found
  | gc nowMs grace => exact .inl found

/-- No operation changes a blob a live snapshot refers to. -/
theorem blobs_perform (closed : contents.Closed) (referenced : id ∈ contents.references) :
    (contents.perform operation).2.blobs[id]? = contents.blobs[id]? := by
  have held := closed id referenced
  cases operation with
  | putChunk put data =>
      simp only [perform]
      split
      next => rfl
      next fresh =>
        have different : put ≠ id := by
          rintro rfl
          exact fresh held
        simp [OrderedTable.getElem?_insert_eq, different]
  | putSnapshotAs put blob refs owner => rw [blobs_putSnapshotAs]
  | deleteSnapshot deleted => rw [blobs_deleteSnapshot]
  | deleteChunk deleted =>
      simp only [perform]
      split
      next => rfl
      next =>
        split
        next => rfl
        next unreferenced =>
          have different : deleted ≠ id := by
            rintro rfl
            exact unreferenced referenced
          simp [OrderedTable.getElem?_erase_eq, different]
  | prune nowMs policy mode => rfl
  | gc nowMs grace =>
      have waits : id ∉ contents.expired nowMs grace := by
        intro expired
        exact (mem_unreferenced_iff.mp (mem_expired_iff.mp expired).1).2 referenced
      simp [perform, swept, OrderedTable.getElem?_eraseAll, waits]

theorem Closed.perform (closed : contents.Closed) (operation : Operation) :
    (contents.perform operation).2.Closed := by
  intro id referenced
  obtain ⟨snapshot, shipped, found, listed⟩ := mem_references_iff.mp referenced
  rcases live_perform found with before | ⟨-, complete, rfl⟩
  · have earlier : id ∈ contents.references := mem_references_iff.mpr ⟨_, _, before, listed⟩
    rw [ExtTreeMap.mem_iff_isSome_getElem?, blobs_perform closed earlier,
      ← ExtTreeMap.mem_iff_isSome_getElem?]
    exact closed id earlier
  · rw [blobs_putSnapshotAs]
    exact complete id listed

/-- A snapshot that stays live keeps what was shipped. -/
theorem live_perform_of_mem (live : contents.live[snapshot]? = some shipped)
    (still : snapshot ∈ (contents.perform operation).2.live) :
    (contents.perform operation).2.live[snapshot]? = some shipped := by
  obtain ⟨after, found⟩ := Option.isSome_iff_exists.mp
    (ExtTreeMap.mem_iff_isSome_getElem?.mp still)
  rcases live_perform found with before | ⟨fresh, -, -⟩
  · rw [found, ← before, live]
  · refine absurd ?_ fresh
    rw [ExtTreeMap.mem_iff_isSome_getElem?, live]
    rfl

end Contents

theorem closed_contentsAfter (operations : List Operation) :
    (contentsAfter operations).Closed := by
  unfold contentsAfter
  induction operations using List.reverseRecOn with
  | nil => simp [Contents.Closed, Contents.references, Contents.empty]
  | append_singleton operations operation inductionHypothesis =>
      rw [List.foldl_append]
      exact inductionHypothesis.perform operation

variable {blake3 : Blake3} {storage : Storage} {disk final : Disk} {contents : Contents}
  {later : List Operation} {snapshot : Ulid} {shipped : Shipped}

/-- A run that keeps a snapshot listed keeps it with its blobs. -/
theorem Represents.keeps (represents : Represents blake3 disk contents)
    (closed : contents.Closed) (live : contents.live[snapshot]? = some shipped)
    (continued : Transition.run (Store.operate storage blake3) disk later = some final)
    (retained : ∀ visit ∈ Transition.visits (Store.operate storage blake3) disk later,
      snapshot ∈ listSnapshots visit.after.tables) :
    ∃ after, Represents blake3 final after ∧ after.Closed ∧
      after.live[snapshot]? = some shipped ∧
      ∀ id ∈ shipped.refs, after.blobs[id]? = contents.blobs[id]? := by
  induction later generalizing disk contents with
  | nil =>
      cases continued
      exact ⟨contents, represents, closed, live, fun _ _ => rfl⟩
  | cons operation rest inductionHypothesis =>
      obtain ⟨next, ran, onward⟩ := Transition.run_cons_eq_some continued
      rw [Transition.visits_cons ran] at retained
      obtain ⟨listed, retainedRest⟩ := List.forall_mem_cons.mp retained
      have representsNext := (represents.operate ran).2
      have still : snapshot ∈ (contents.perform operation).2.live := by
        rw [representsNext.mem_live_iff]
        exact mem_listSnapshots_iff.mp listed
      obtain ⟨after, representsAfter, closedAfter, liveAfter, blobs⟩ :=
        inductionHypothesis representsNext (closed.perform operation)
          (Contents.live_perform_of_mem live still) onward retainedRest
      refine ⟨after, representsAfter, closedAfter, liveAfter, fun id listed => ?_⟩
      rw [blobs id listed]
      apply Contents.blobs_perform closed
      exact Contents.mem_references_iff.mpr ⟨snapshot, shipped, live, listed⟩

/-- The chunks of a kept snapshot read the same before and after. -/
theorem Represents.exists_chunk (represents : Represents blake3 disk contents)
    (closed : contents.Closed) (live : contents.live[snapshot]? = some shipped)
    {after : Contents} (representsAfter : Represents blake3 final after) {id : ChunkId}
    (listed : id ∈ shipped.refs) (same : after.blobs[id]? = contents.blobs[id]?) :
    ∃ data, getChunk blake3 disk id = .ok data ∧ getChunk blake3 final id = .ok data := by
  have held : id ∈ contents.blobs :=
    closed id (Contents.mem_references_iff.mpr ⟨snapshot, shipped, live, listed⟩)
  obtain ⟨data, found⟩ := Option.isSome_iff_exists.mp (ExtTreeMap.mem_iff_isSome_getElem?.mp held)
  refine ⟨data, ?_, ?_⟩
  · rw [represents.fetched]
    exact Contents.getChunk_eq_ok_iff.mpr found
  · rw [representsAfter.fetched]
    exact Contents.getChunk_eq_ok_iff.mpr (same.trans found)

/-- As long as a snapshot stays listed, whatever else is stored, deleted,
pruned or collected, its manifest, references and owner stay, and each of its
chunks is read with the same bytes. -/
theorem retained_snapshot_is_stable (storage : Storage) (blake3 : Blake3)
    (operations later : List Operation) (disk final : Disk) (snapshot : Ulid)
    (executed : Transition.run (operate storage blake3) .empty operations = some disk)
    (listed : snapshot ∈ listSnapshots disk.tables)
    (continued : Transition.run (operate storage blake3) disk later = some final)
    (retained : ∀ visit ∈ Transition.visits (operate storage blake3) disk later,
      snapshot ∈ listSnapshots visit.after.tables) :
    (∃ blob, getManifestBlob disk.tables snapshot = .ok blob ∧
      getManifestBlob final.tables snapshot = .ok blob) ∧
      final.tables.refsOf snapshot = disk.tables.refsOf snapshot ∧
      final.tables.snapshotOwner[snapshot]? = disk.tables.snapshotOwner[snapshot]? ∧
      ∀ id ∈ disk.tables.refsOf snapshot, ∃ data,
        getChunk blake3 disk id = .ok data ∧ getChunk blake3 final id = .ok data := by
  have represents := represents_contentsAfter executed
  have closed := closed_contentsAfter operations
  have isLive : snapshot ∈ (contentsAfter operations).live := by
    rw [represents.mem_live_iff]
    exact mem_listSnapshots_iff.mp listed
  obtain ⟨shipped, live⟩ := Option.isSome_iff_exists.mp
    (ExtTreeMap.mem_iff_isSome_getElem?.mp isLive)
  obtain ⟨after, representsAfter, -, liveAfter, blobs⟩ :=
    represents.keeps closed live continued retained
  refine ⟨⟨shipped.blob, ?_, ?_⟩, ?_, ?_, ?_⟩
  · rw [represents.getManifestBlob_eq, Contents.getManifestBlob, live]
  · rw [representsAfter.getManifestBlob_eq, Contents.getManifestBlob, liveAfter]
  · rw [represents.refsOf_eq, representsAfter.refsOf_eq, Contents.refsOf, Contents.refsOf, live,
      liveAfter]
  · rw [represents.owners, representsAfter.owners, live, liveAfter]
  · intro id referenced
    rw [represents.refsOf_eq, Contents.refsOf, live] at referenced
    exact represents.exists_chunk closed live representsAfter referenced (blobs id referenced)

/-- A snapshot that is listed throughout a later run, checked by evaluation. -/
def keepsListed (disk : Disk) (later : List Operation) (snapshot : Ulid) : Bool :=
  (Transition.visits (operate largeStorage .onEmpty) disk later).all fun visit =>
    decide (snapshot ∈ listSnapshots visit.after.tables)

/-- One snapshot of one chunk. -/
def firstOperations : List Operation :=
  [.putChunk ⟨.replicate 32 4⟩ [1, 2],
    .putSnapshotAs (.fromParts 3 3) [5] [⟨.replicate 32 4⟩] (some "laptop")]

/-- The chunk is uploaded again with other bytes, another snapshot comes and
goes, and the store is pruned and collected. -/
def laterOperations : List Operation :=
  [.putChunk ⟨.replicate 32 4⟩ [9], .putSnapshotAs (.fromParts 4 4) [6] [] none,
    .deleteSnapshot (.fromParts 4 4), .prune 5 .defaultGrid .auto,
    .gc 6 (.fromSecs 0)]

theorem first_snapshot_is_stable :
    ∃ disk final,
      Transition.run (operate largeStorage .onEmpty) .empty firstOperations = some disk ∧
      Transition.run (operate largeStorage .onEmpty) disk laterOperations = some final ∧
      (∃ blob, getManifestBlob disk.tables (.fromParts 3 3) = .ok blob ∧
        getManifestBlob final.tables (.fromParts 3 3) = .ok blob) ∧
      final.tables.refsOf (.fromParts 3 3) = disk.tables.refsOf (.fromParts 3 3) ∧
      final.tables.snapshotOwner[Ulid.fromParts 3 3]? =
        disk.tables.snapshotOwner[Ulid.fromParts 3 3]? ∧
      ∀ id ∈ disk.tables.refsOf (.fromParts 3 3), ∃ data,
        getChunk .onEmpty disk id = .ok data ∧ getChunk .onEmpty final id = .ok data := by
  have enabled : ((Transition.run (operate largeStorage .onEmpty) .empty firstOperations).any
      fun disk => (Transition.run (operate largeStorage .onEmpty) disk laterOperations).isSome &&
        decide (Ulid.fromParts 3 3 ∈ listSnapshots disk.tables) &&
        keepsListed disk laterOperations (.fromParts 3 3)) = true := by decide +kernel
  obtain ⟨disk, executed, checked⟩ := (Option.any_eq_true _ _).mp enabled
  simp only [Bool.and_eq_true, decide_eq_true_eq] at checked
  obtain ⟨⟨ran, listed⟩, kept⟩ := checked
  obtain ⟨final, continued⟩ := Option.isSome_iff_exists.mp ran
  refine ⟨disk, final, executed, continued, ?_⟩
  apply retained_snapshot_is_stable largeStorage .onEmpty firstOperations laterOperations disk
    final (.fromParts 3 3) executed listed continued
  intro visit visited
  exact of_decide_eq_true (List.all_eq_true.mp kept visit visited)

end Stability

section Manifests

/-- Why a plaintext manifest was not stored or not read. -/
inductive PlainError where
  | manifest (error : ManifestError)
  | store (error : StoreError)
deriving DecidableEq

/-- Store a plaintext manifest with its references. -/
def Disk.putManifest (disk : Disk) (manifest : Manifest) : Except PlainError Disk :=
  match manifest.encode with
  | .error error => .error (.manifest error)
  | .ok blob =>
      match putSnapshotAs disk.tables manifest.snapshotId blob manifest.chunkRefs none with
      | .error error => .error (.store error)
      | .ok tables => .ok { disk with tables := tables }

/-- Load and decode a plaintext manifest. -/
def Disk.getManifest (disk : Disk) (snapshot : Ulid) : Except PlainError Manifest :=
  match getManifestBlob disk.tables snapshot with
  | .error error => .error (.store error)
  | .ok blob =>
      match Manifest.decode blob with
      | .error error => .error (.manifest error)
      | .ok manifest => .ok manifest

variable {blake3 : Blake3} {storage : Storage} {disk next final : Disk} {manifest : Manifest}

theorem Disk.exists_operation_of_putManifest (put : disk.putManifest manifest = .ok next) :
    ∃ blob, manifest.encode = .ok blob ∧
      (Operation.putSnapshotAs manifest.snapshotId blob manifest.chunkRefs none).run blake3 disk =
        (.finished (.ok ()), next) := by
  unfold Disk.putManifest at put
  split at put
  next => cases put
  next blob encoded =>
    split at put
    next => cases put
    next tables stored =>
      cases put
      refine ⟨blob, encoded, ?_⟩
      rw [Operation.run, stored, finish]

/-- A manifest that was put is read back as long as its snapshot stays listed,
and every chunk it lists is held. -/
theorem put_manifest_is_read_back (storage : Storage) (blake3 : Blake3)
    (operations later : List Operation) (disk next final : Disk) (manifest : Manifest)
    (executed : Transition.run (operate storage blake3) .empty operations = some disk)
    (put : disk.putManifest manifest = .ok next) (accepted : storage.accepts next = true)
    (continued : Transition.run (operate storage blake3) next later = some final)
    (retained : ∀ visit ∈ Transition.visits (operate storage blake3) next later,
      manifest.snapshotId ∈ listSnapshots visit.after.tables) :
    final.getManifest manifest.snapshotId = .ok manifest ∧
      ∀ id ∈ manifest.chunkRefs, ∃ data,
        getChunk blake3 next id = .ok data ∧ getChunk blake3 final id = .ok data := by
  obtain ⟨blob, encoded, ran⟩ := @Disk.exists_operation_of_putManifest blake3 _ _ _ put
  have operated : operate storage blake3 disk
      (.putSnapshotAs manifest.snapshotId blob manifest.chunkRefs none) = some next := by
    simp [operate, ran, accepted]
  obtain ⟨answered, represents⟩ := (represents_contentsAfter executed).operate operated
  have closed := (closed_contentsAfter operations).perform
    (.putSnapshotAs manifest.snapshotId blob manifest.chunkRefs none)
  have live : ((contentsAfter operations).perform
      (.putSnapshotAs manifest.snapshotId blob manifest.chunkRefs none)).2.live[
        manifest.snapshotId]? = some ⟨blob, none, manifest.chunkRefs⟩ := by
    rw [ran] at answered
    simp only [Contents.perform] at answered ⊢
    split at answered
    next => cases answered
    next fresh =>
      rw [if_neg fresh]
      split at answered
      next => cases answered
      next => simp
  obtain ⟨after, representsAfter, -, liveAfter, blobs⟩ :=
    represents.keeps closed live continued retained
  constructor
  · rw [Disk.getManifest, representsAfter.getManifestBlob_eq, Contents.getManifestBlob, liveAfter]
    simp only
    rw [Manifest.decode_of_encode encoded]
  · intro id listed
    exact represents.exists_chunk closed live representsAfter listed (blobs id listed)

/-- A manifest of one file of one chunk. -/
def oneFileManifest : Manifest :=
  ⟨.fromParts 3 3, 7, [⟨"f", 2, 1, 0, 33188, [⟨.replicate 32 4⟩]⟩]⟩

theorem one_file_manifest_is_read_back :
    ∃ disk next final,
      Transition.run (operate largeStorage .onEmpty) .empty
        [.putChunk ⟨.replicate 32 4⟩ [1, 2]] = some disk ∧
      disk.putManifest oneFileManifest = .ok next ∧
      Transition.run (operate largeStorage .onEmpty) next laterOperations = some final ∧
      final.getManifest oneFileManifest.snapshotId = .ok oneFileManifest ∧
      ∀ id ∈ oneFileManifest.chunkRefs, ∃ data,
        getChunk .onEmpty next id = .ok data ∧ getChunk .onEmpty final id = .ok data := by
  have enabled : ((Transition.run (operate largeStorage .onEmpty) .empty
      [.putChunk ⟨.replicate 32 4⟩ [1, 2]]).any fun disk =>
        (disk.putManifest oneFileManifest).toOption.any fun next =>
          largeStorage.accepts next &&
            (Transition.run (operate largeStorage .onEmpty) next laterOperations).isSome &&
            keepsListed next laterOperations oneFileManifest.snapshotId) = true := by
    decide +kernel
  obtain ⟨disk, executed, onward⟩ := (Option.any_eq_true _ _).mp enabled
  obtain ⟨next, stored, checked⟩ := (Option.any_eq_true _ _).mp onward
  have put : disk.putManifest oneFileManifest = .ok next := by
    cases answered : disk.putManifest oneFileManifest with
    | error error => simp [answered, Except.toOption] at stored
    | ok result => simpa [answered, Except.toOption] using stored
  simp only [Bool.and_eq_true] at checked
  obtain ⟨⟨accepted, ran⟩, kept⟩ := checked
  obtain ⟨final, continued⟩ := Option.isSome_iff_exists.mp ran
  refine ⟨disk, next, final, executed, put, continued, ?_⟩
  apply put_manifest_is_read_back largeStorage .onEmpty [.putChunk ⟨.replicate 32 4⟩ [1, 2]]
    laterOperations disk next final oneFileManifest executed put accepted continued
  intro visit visited
  exact of_decide_eq_true (List.all_eq_true.mp kept visit visited)

end Manifests

end Busyncr.Store
