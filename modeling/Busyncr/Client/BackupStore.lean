import Busyncr.Client.Backup
import Mathlib.Data.Set.Function

/-!
What a backup leaves in the daemon's store.

`Faithful` is the invariant: a chunk of the backup set that is indexed holds
a blob sealed from its plaintext.  The file loop keeps it, and after the last
flush every reference of the manifest is indexed.
-/

namespace Busyncr.Client

open Std Store

section Faithful

variable (libraries : Libraries) (keys : KeyPair)

/-- The chunk ID of a plaintext in this backup set. -/
abbrev idOf (plaintext : Bytes) : ChunkId :=
  ChunkId.keyed libraries.blake3 keys.chunkIdKey plaintext

/-- The blob was sealed from the plaintext under its chunk ID. -/
def SealedFrom (plaintext blob : Bytes) : Prop :=
  ∃ chosen nonce, Represents libraries.compressors plaintext chosen ∧
    encryptChunk libraries.aead keys.dataKey (idOf libraries keys plaintext)
      (frame chosen.1 chosen.2) nonce = .ok blob

/-- The store returns such a blob for the plaintext. -/
def Holds (disk : Disk) (plaintext : Bytes) : Prop :=
  ∃ blob, SealedFrom libraries keys plaintext blob ∧
    getChunk libraries.blake3 disk (idOf libraries keys plaintext) = .ok blob

/-- Every indexed chunk among these plaintexts holds a blob sealed from it. -/
def Faithful (content : Set Bytes) (disk : Disk) : Prop :=
  ∀ plaintext ∈ content, idOf libraries keys plaintext ∈ disk.tables.chunks →
    Holds libraries keys disk plaintext

end Faithful

/-- Chunks were added and no snapshot changed. -/
structure Grown (before after : Disk) : Prop where
  chunks : ∀ id ∈ before.tables.chunks, id ∈ after.tables.chunks
  snapshots : after.tables.snapshots = before.tables.snapshots

theorem Grown.refl (disk : Disk) : Grown disk disk := ⟨fun _ indexed => indexed, rfl⟩

theorem Grown.trans {first second third : Disk} (grown : Grown first second)
    (again : Grown second third) : Grown first third :=
  ⟨fun id indexed => again.chunks id (grown.chunks id indexed),
    again.snapshots.trans grown.snapshots⟩

section Uploads

variable {libraries : Libraries} {keys : KeyPair} {content : Set Bytes}

theorem faithful_putChunk (injective : Set.InjOn (idOf libraries keys) content)
    {disk : Disk} {plaintext blob : Bytes} (faithful : Faithful libraries keys content disk)
    (inSet : plaintext ∈ content) (sealedFrom : SealedFrom libraries keys plaintext blob) :
    Faithful libraries keys content
        (putChunk libraries.blake3 disk (idOf libraries keys plaintext) blob).2 ∧
      Grown disk (putChunk libraries.blake3 disk (idOf libraries keys plaintext) blob).2 ∧
      idOf libraries keys plaintext ∈
        (putChunk libraries.blake3 disk (idOf libraries keys plaintext) blob).2.tables.chunks := by
  unfold putChunk
  split
  next present => exact ⟨faithful, .refl disk, present⟩
  next fresh =>
    refine ⟨?_, ⟨fun id indexed => ExtTreeMap.mem_insert.mpr (.inr indexed), rfl⟩,
      ExtTreeMap.mem_insert_self⟩
    intro other otherInSet indexed
    by_cases same : idOf libraries keys plaintext = idOf libraries keys other
    · obtain rfl := injective inSet otherInSet same
      have entered : chunkEntry (indexChunk disk.tables (idOf libraries keys plaintext) blob).chunks
          (idOf libraries keys plaintext) = some (newEntry blob) := by
        simp [indexChunk, chunkEntry_insert]
      exact ⟨blob, sealedFrom, getChunk_of_stored entered rfl (by simp)⟩
    · have before : idOf libraries keys other ∈ disk.tables.chunks := by
        rcases ExtTreeMap.mem_insert.mp indexed with equal | older
        · exact absurd (LawfulEqOrd.compare_eq_iff_eq.mp equal) same
        · exact older
      obtain ⟨held, heldSealed, read⟩ := faithful other otherInSet before
      refine ⟨held, heldSealed, ?_⟩
      rw [← read]
      apply getChunk_congr
      · simp [indexChunk, chunkEntry_insert, same]
      · simp [OrderedTable.getElem?_insert_eq, same]

/-- A wire blob sealed from a plaintext of the set. -/
def SealedBlob (libraries : Libraries) (keys : KeyPair) (content : Set Bytes)
    (blob : Daemon.ChunkBlob) : Prop :=
  ∃ plaintext ∈ content, blob.chunkId = (idOf libraries keys plaintext).asBytes ∧
    SealedFrom libraries keys plaintext blob.data

theorem uploadChunks_ok (injective : Set.InjOn (idOf libraries keys) content)
    {blobs : List Daemon.ChunkBlob} {disk next : Disk}
    {counted outcome : Daemon.UploadChunksResponse}
    (faithful : Faithful libraries keys content disk)
    (sealedBlobs : ∀ blob ∈ blobs, SealedBlob libraries keys content blob)
    (uploaded : Daemon.uploadChunks libraries.blake3 disk counted blobs = (.ok outcome, next)) :
    Faithful libraries keys content next ∧ Grown disk next ∧
      ∀ blob ∈ blobs, ∀ id : ChunkId, blob.chunkId = id.asBytes → id ∈ next.tables.chunks := by
  induction blobs generalizing disk counted with
  | nil =>
      cases uploaded
      exact ⟨faithful, .refl _, by simp⟩
  | cons blob rest inductionHypothesis =>
      obtain ⟨head, tail⟩ := List.forall_mem_cons.mp sealedBlobs
      obtain ⟨plaintext, inSet, named, sealedFrom⟩ := head
      obtain ⟨faithfulNext, grown, indexed⟩ := faithful_putChunk injective faithful inSet sealedFrom
      simp only [Daemon.uploadChunks, named, Daemon.parseChunkId_asBytes] at uploaded
      have onward : ∃ tallied, Daemon.uploadChunks libraries.blake3
          (putChunk libraries.blake3 disk (idOf libraries keys plaintext) blob.data).2 tallied
          rest = (.ok outcome, next) := by
        split at uploaded
        next stored => exact ⟨_, by rw [stored]; exact uploaded⟩
        next stored => exact ⟨_, by rw [stored]; exact uploaded⟩
      obtain ⟨tallied, continued⟩ := onward
      obtain ⟨faithfulFinal, grownFinal, restIndexed⟩ :=
        inductionHypothesis faithfulNext tail continued
      refine ⟨faithfulFinal, grown.trans grownFinal, List.forall_mem_cons.mpr ⟨?_, restIndexed⟩⟩
      intro id sameWire
      rw [← ChunkId.asBytes_injective (named.symm.trans sameWire)]
      exact grownFinal.chunks _ indexed

end Uploads

@[simp]
theorem parseMissing_asBytes (ids : List ChunkId) :
    parseMissing (ids.map ChunkId.asBytes) = .ok ids := by
  induction ids with
  | nil => rfl
  | cons id rest inductionHypothesis => simp [parseMissing, inductionHypothesis]

/-- An answered call was admitted. -/
theorem handle_ok {Value : Type} {serving : Serving} {disk next : Disk} {value : Value}
    {handler : Except Daemon.Status Value × Disk}
    (answered : serving.handle disk handler = (.ok value, next)) :
    Daemon.authenticate serving.auth serving.fingerprint = .ok () ∧
      handler = (.ok value, next) := by
  unfold Serving.handle at answered
  split at answered
  next => cases answered
  next admitted => exact ⟨admitted, answered⟩

section Batches

variable {Threshold : Type} {context : BackupContext Threshold}

/-- What was sealed for the daemon: a blob for every pending chunk it lacks,
each from the chunk it is named by. -/
theorem sealMissing_ok {peer : BackupPeer} {missing : List ChunkId} {pending : Pending}
    {session next : Session peer} {blobs : List Daemon.ChunkBlob}
    (sealedOk : sealMissing context missing pending session = .ok (blobs, next)) :
    next.state = session.state ∧
      (∀ blob ∈ blobs, ∃ entry ∈ pending, blob.chunkId = entry.1.asBytes ∧
        ∃ chosen nonce, Represents context.libraries.compressors entry.2 chosen ∧
          encryptChunk context.libraries.aead context.keys.dataKey entry.1
            (frame chosen.1 chosen.2) nonce = .ok blob.data) ∧
      ∀ entry ∈ pending, entry.1 ∈ missing → ∃ blob ∈ blobs, blob.chunkId = entry.1.asBytes := by
  induction pending generalizing session blobs with
  | nil =>
      cases sealedOk
      simp
  | cons entry rest inductionHypothesis =>
      obtain ⟨id, data⟩ := entry
      simp only [sealMissing] at sealedOk
      split at sealedOk
      next lacking =>
        split at sealedOk
        next => cases sealedOk
        next ciphertext encrypted =>
          split at sealedOk
          next => cases sealedOk
          next others final sealedRest =>
            cases sealedOk
            obtain ⟨sameState, fromPending, complete⟩ := inductionHypothesis sealedRest
            refine ⟨sameState, List.forall_mem_cons.mpr ⟨?_, ?_⟩,
              List.forall_mem_cons.mpr ⟨?_, ?_⟩⟩
            · exact ⟨(id, data), by simp, rfl, _, _,
                represents_chooseCodec data context.phase context.policy session.counters,
                encrypted⟩
            · intro blob membership
              obtain ⟨entry, inRest, onward⟩ := fromPending blob membership
              exact ⟨entry, by simp [inRest], onward⟩
            · intro _
              exact ⟨⟨id.asBytes, ciphertext⟩, by simp, rfl⟩
            · intro entry inRest entryLacking
              obtain ⟨blob, membership, named⟩ := complete entry inRest entryLacking
              exact ⟨blob, by simp [membership], named⟩
      next held =>
        obtain ⟨sameState, fromPending, complete⟩ := inductionHypothesis sealedOk
        refine ⟨sameState, ?_, List.forall_mem_cons.mpr ⟨fun lacking => absurd lacking held,
          complete⟩⟩
        intro blob membership
        obtain ⟨entry, inRest, onward⟩ := fromPending blob membership
        exact ⟨entry, by simp [inRest], onward⟩

variable {content : Set Bytes} {serving : Serving}

/-- The store behind a session. -/
def Session.disk {blake3 : Blake3} (session : Session (serving.backupPeer blake3)) : Disk :=
  session.state

/-- Pending chunks are plaintexts of the set under their own IDs. -/
def Proper (context : BackupContext Threshold) (content : Set Bytes) (pending : Pending) : Prop :=
  ∀ entry ∈ pending, entry.1 = idOf context.libraries context.keys entry.2 ∧ entry.2 ∈ content

theorem upload_ok (injective : Set.InjOn (idOf context.libraries context.keys) content)
    {session next : Session (serving.backupPeer context.libraries.blake3)}
    {blobs : List Daemon.ChunkBlob}
    (faithful : Faithful context.libraries context.keys content session.disk)
    (sealedBlobs : ∀ blob ∈ blobs, SealedBlob context.libraries context.keys content blob)
    (uploaded : upload blobs session = .ok next) :
    Faithful context.libraries context.keys content next.disk ∧ Grown session.disk next.disk ∧
      ∀ blob ∈ blobs, ∀ id : ChunkId, blob.chunkId = id.asBytes →
        id ∈ next.disk.tables.chunks := by
  obtain ⟨rfl, rfl⟩ | ⟨outcome, state, answered, rfl⟩ := exists_reply_of_upload uploaded
  · exact ⟨faithful, .refl _, by simp⟩
  · exact uploadChunks_ok injective faithful sealedBlobs (handle_ok answered).2

/-- A chunk asked about and not reported missing is indexed. -/
theorem hasChunks_ok {session : Session (serving.backupPeer context.libraries.blake3)}
    {pending : Pending} {missingWire : List Bytes} {missing : List ChunkId} {state : Disk}
    (answered : (serving.backupPeer context.libraries.blake3).hasChunks session.state
      (pending.map fun entry => entry.1.asBytes) = (.ok missingWire, state))
    (parsed : parseMissing missingWire = .ok missing) :
    state = session.disk ∧
      ∀ entry ∈ pending, entry.1 ∉ missing → entry.1 ∈ session.disk.tables.chunks := by
  obtain ⟨_, handled⟩ := handle_ok answered
  have wire : (pending.map fun entry => entry.1.asBytes) =
      (pending.map Prod.fst).map ChunkId.asBytes := by
    simp
  rw [wire, Daemon.hasChunks, Daemon.parseChunkIds_asBytes] at handled
  cases handled
  rw [parseMissing_asBytes] at parsed
  cases parsed
  refine ⟨rfl, fun entry inPending notMissing => ?_⟩
  have known : hasChunk session.disk.tables entry.1 = true := by
    by_contra unknown
    apply notMissing
    refine List.mem_filter.mpr ⟨List.mem_map.mpr ⟨entry, inPending, rfl⟩, ?_⟩
    change (!hasChunk session.disk.tables entry.1) = true
    simpa using unknown
  exact hasChunk_iff.mp known

/-- A flush uploads what is missing: afterwards every pending chunk is
indexed. -/
theorem flush_ok (injective : Set.InjOn (idOf context.libraries context.keys) content)
    {session next : Session (serving.backupPeer context.libraries.blake3)} {pending : Pending}
    (flushed : flush context pending session = .ok next)
    (faithful : Faithful context.libraries context.keys content session.disk)
    (proper : Proper context content pending) :
    Faithful context.libraries context.keys content next.disk ∧ Grown session.disk next.disk ∧
      ∀ entry ∈ pending, entry.1 ∈ next.disk.tables.chunks := by
  obtain ⟨rfl, rfl⟩ | ⟨missingWire, state, missing, blobs, sealedSession, answered, parsed, sealedOk,
    uploaded⟩ := exists_steps_of_flush flushed
  · exact ⟨faithful, .refl _, by simp⟩
  · obtain ⟨sameState, fromPending, complete⟩ := sealMissing_ok sealedOk
    obtain ⟨sameDisk, lacked⟩ := hasChunks_ok answered parsed
    have unchanged : sealedSession.disk = session.disk := sameState.trans sameDisk
    rw [← unchanged] at faithful ⊢
    have sealedBlobs : ∀ blob ∈ blobs,
        SealedBlob context.libraries context.keys content blob := by
      intro blob membership
      obtain ⟨entry, inPending, named, chosen, nonce, represents, encrypted⟩ :=
        fromPending blob membership
      obtain ⟨identified, inSet⟩ := proper entry inPending
      rw [identified] at named encrypted
      exact ⟨entry.2, inSet, named, chosen, nonce, represents, encrypted⟩
    obtain ⟨faithfulNext, grown, indexed⟩ := upload_ok injective faithful sealedBlobs uploaded
    refine ⟨faithfulNext, grown, fun entry inPending => ?_⟩
    by_cases lacking : entry.1 ∈ missing
    · obtain ⟨blob, membership, named⟩ := complete entry inPending lacking
      exact indexed blob membership entry.1 named
    · apply grown.chunks
      rw [unchanged]
      exact lacked entry inPending lacking

/-- The invariant of the file loop over the store it started on: every chunk
taken is indexed or waits in the buffer. -/
structure Tracks (context : BackupContext Threshold) (content : Set Bytes) (start : Disk)
    (run : BackupRun (serving.backupPeer context.libraries.blake3)) : Prop where
  faithful : Faithful context.libraries context.keys content run.session.disk
  grown : Grown start run.session.disk
  proper : Proper context content run.pending
  covered : ∀ id ∈ run.seen, id ∈ run.session.disk.tables.chunks ∨ ∃ entry ∈ run.pending,
    entry.1 = id

theorem takeChunk_ok (injective : Set.InjOn (idOf context.libraries context.keys) content)
    {start : Disk} {run next : BackupRun (serving.backupPeer context.libraries.blake3)}
    {data : Bytes} (tracks : Tracks context content start run) (inSet : data ∈ content)
    (taken : takeChunk context run data = .ok next) :
    Tracks context content start next ∧ idOf context.libraries context.keys data ∈ next.seen ∧
      ∀ id ∈ run.seen, id ∈ next.seen := by
  simp only [takeChunk] at taken
  split at taken
  next known =>
    cases taken
    exact ⟨⟨tracks.faithful, tracks.grown, tracks.proper, tracks.covered⟩, known,
      fun _ seen => seen⟩
  next =>
    have proper : Proper context content
        (run.pending ++ [(idOf context.libraries context.keys data, data)]) := by
      intro entry membership
      rcases List.mem_append.mp membership with earlier | last
      · exact tracks.proper entry earlier
      · obtain rfl := List.mem_singleton.mp last
        exact ⟨rfl, inSet⟩
    have covered : ∀ id ∈ idOf context.libraries context.keys data :: run.seen,
        id ∈ run.session.disk.tables.chunks ∨
          ∃ entry ∈ run.pending ++ [(idOf context.libraries context.keys data, data)],
            entry.1 = id := by
      refine List.forall_mem_cons.mpr
        ⟨.inr ⟨(idOf context.libraries context.keys data, data), by simp, rfl⟩, fun id seen => ?_⟩
      refine (tracks.covered id seen).imp_right fun ⟨entry, inPending, same⟩ => ?_
      exact ⟨entry, by simp [inPending], same⟩
    split at taken
    next =>
      split at taken
      next => cases taken
      next flushed flushedOk =>
        cases taken
        obtain ⟨faithful, grown, indexed⟩ := flush_ok injective flushedOk tracks.faithful proper
        refine ⟨⟨faithful, tracks.grown.trans grown, by simp [Proper], fun id seen => .inl ?_⟩,
          by simp, fun id seen => by simp [seen]⟩
        rcases covered id seen with before | ⟨entry, inPending, rfl⟩
        · exact grown.chunks id before
        · exact indexed entry inPending
    next =>
      cases taken
      exact ⟨⟨tracks.faithful, tracks.grown, proper, covered⟩, by simp,
        fun id seen => by simp [seen]⟩

theorem takeChunks_ok (injective : Set.InjOn (idOf context.libraries context.keys) content)
    {start : Disk} {chunks : List Bytes}
    {run next : BackupRun (serving.backupPeer context.libraries.blake3)}
    (tracks : Tracks context content start run) (inSet : ∀ data ∈ chunks, data ∈ content)
    (taken : takeChunks context chunks run = .ok next) :
    Tracks context content start next ∧
      (∀ data ∈ chunks, idOf context.libraries context.keys data ∈ next.seen) ∧
      ∀ id ∈ run.seen, id ∈ next.seen := by
  induction chunks generalizing run with
  | nil =>
      cases taken
      exact ⟨tracks, by simp, fun _ seen => seen⟩
  | cons data rest inductionHypothesis =>
      obtain ⟨head, tail⟩ := List.forall_mem_cons.mp inSet
      simp only [takeChunks] at taken
      split at taken
      next => cases taken
      next middle takenFirst =>
        obtain ⟨tracksMiddle, seenFirst, kept⟩ := takeChunk_ok injective tracks head takenFirst
        obtain ⟨tracksNext, seenRest, keptRest⟩ := inductionHypothesis tracksMiddle tail taken
        exact ⟨tracksNext, List.forall_mem_cons.mpr ⟨keptRest _ seenFirst, seenRest⟩,
          fun id seen => keptRest id (kept id seen)⟩

/-- The entry records the file as it was cut into these chunks. -/
structure Captured (libraries : Libraries) (keys : KeyPair) (spec : FileSpec)
    (chunks : List Bytes) (entry : FileEntry) : Prop where
  path : entry.path = spec.rel
  times : (entry.mtimeSecs, entry.mtimeNanos) = mtimeParts spec.file.modified
  mode : entry.mode = spec.file.mode
  size : entry.size = UInt64.ofNat chunks.flatten.length
  chunks : entry.chunks = chunks.map (idOf libraries keys)

theorem sum_ofNat_length (chunks : List Bytes) :
    (chunks.map fun data => UInt64.ofNat data.length).sum =
      UInt64.ofNat chunks.flatten.length := by
  induction chunks with
  | nil => rfl
  | cons data rest inductionHypothesis =>
      rw [List.map_cons, List.sum_cons, inductionHypothesis, List.flatten_cons,
        List.length_append, UInt64.ofNat_add]

theorem captured_entryOf (spec : FileSpec) (chunks : List Bytes) :
    Captured context.libraries context.keys spec chunks (entryOf context spec chunks) :=
  ⟨rfl, rfl, rfl, sum_ofNat_length chunks, rfl⟩

theorem captureFile_ok (injective : Set.InjOn (idOf context.libraries context.keys) content)
    {chunker : Bytes → Option (List Bytes)} {spec : FileSpec} {start : Disk} {entry : FileEntry}
    {run next : BackupRun (serving.backupPeer context.libraries.blake3)}
    (tracks : Tracks context content start run)
    (inSet : ∀ chunks, chunker spec.file.content = some chunks → ∀ data ∈ chunks, data ∈ content)
    (captured : captureFile context chunker spec run = .ok (entry, next)) :
    Tracks context content start next ∧
      (∃ chunks, chunker spec.file.content = some chunks ∧
        Captured context.libraries context.keys spec chunks entry) ∧
      (∀ id ∈ entry.chunks, id ∈ next.seen) ∧ ∀ id ∈ run.seen, id ∈ next.seen := by
  obtain ⟨chunks, taken, cut, takenOk, rfl, rfl⟩ := exists_chunks_of_captureFile captured
  obtain ⟨tracksTaken, seen, kept⟩ := takeChunks_ok injective tracks (inSet chunks cut) takenOk
  refine ⟨⟨tracksTaken.faithful, tracksTaken.grown, tracksTaken.proper, tracksTaken.covered⟩,
    ⟨chunks, cut, captured_entryOf spec chunks⟩, ?_, kept⟩
  intro id listed
  obtain ⟨data, inChunks, rfl⟩ := List.mem_map.mp listed
  exact seen data inChunks

theorem captureFiles_ok (injective : Set.InjOn (idOf context.libraries context.keys) content)
    {chunker : Bytes → Option (List Bytes)} {specs : List FileSpec} {start : Disk}
    {entries : List FileEntry}
    {run next : BackupRun (serving.backupPeer context.libraries.blake3)}
    (captured : captureFiles context chunker specs run = .ok (entries, next))
    (tracks : Tracks context content start run)
    (inSet : ∀ spec ∈ specs, ∀ chunks, chunker spec.file.content = some chunks →
      ∀ data ∈ chunks, data ∈ content) :
    Tracks context content start next ∧
      List.Forall₂ (fun spec entry => ∃ chunks, chunker spec.file.content = some chunks ∧
        Captured context.libraries context.keys spec chunks entry) specs entries ∧
      (∀ entry ∈ entries, ∀ id ∈ entry.chunks, id ∈ next.seen) ∧
      ∀ id ∈ run.seen, id ∈ next.seen := by
  induction specs generalizing run entries with
  | nil =>
      cases captured
      exact ⟨tracks, .nil, by simp, fun _ seen => seen⟩
  | cons spec rest inductionHypothesis =>
      obtain ⟨head, tail⟩ := List.forall_mem_cons.mp inSet
      simp only [captureFiles] at captured
      split at captured
      next => cases captured
      next entry middle capturedFirst =>
        split at captured
        next => cases captured
        next others final capturedRest =>
          cases captured
          obtain ⟨tracksMiddle, cut, seenFirst, kept⟩ :=
            captureFile_ok injective tracks head capturedFirst
          obtain ⟨tracksNext, cuts, seenRest, keptRest⟩ :=
            inductionHypothesis capturedRest tracksMiddle tail
          refine ⟨tracksNext, .cons cut cuts, List.forall_mem_cons.mpr ⟨?_, seenRest⟩,
            fun id seen => keptRest id (kept id seen)⟩
          exact fun id listed => keptRest id (seenFirst id listed)

end Batches

section Commit

variable {libraries : Libraries} {keys : KeyPair} {content : Set Bytes}

/-- A transaction other than an upload changes no blob. -/
theorem faithful_commit {disk : Disk} {transaction : Transaction}
    (notUpload : ∀ id data, transaction ≠ .putChunk id data)
    (faithful : Faithful libraries keys content disk) :
    Faithful libraries keys content
      { disk with tables := transaction.commit disk.tables } := by
  intro plaintext inSet indexed
  rcases mem_chunks_commit indexed with before | ⟨data, isUpload⟩
  · obtain ⟨blob, sealedFrom, read⟩ := faithful plaintext inSet before
    exact ⟨blob, sealedFrom, (getChunk_commit before indexed).trans read⟩
  · exact absurd isUpload (notUpload _ data)

/-- The snapshot is stored with this blob, its references are indexed, and
indexed chunks hold their blobs. -/
structure Stored (libraries : Libraries) (keys : KeyPair) (content : Set Bytes) (snapshot : Ulid)
    (blob : Bytes) (refs : List ChunkId) (disk : Disk) : Prop where
  faithful : Faithful libraries keys content disk
  refs : ∀ id ∈ refs, id ∈ disk.tables.chunks
  manifest : disk.tables.snapshots[snapshot]? = some blob

/-- The daemon's own prune cannot take the snapshot: it does not prune, or no
greater ULID in the store shares the snapshot's retention cell. -/
def Serving.Retains (serving : Serving) (tables : Tables) (snapshot : Ulid) : Prop :=
  serving.autoPrune = true → ∀ other ∈ tables.snapshots, snapshot < other →
    Retention.cellKey .defaultGrid serving.nowMs (ulidTimeMs other) ≠
      Retention.cellKey .defaultGrid serving.nowMs (ulidTimeMs snapshot)

theorem stored_commit {disk : Disk} {snapshot : Ulid} {blob : Bytes} {refs : List ChunkId}
    {transaction : Transaction} (notUpload : ∀ id data, transaction ≠ .putChunk id data)
    (notGc : ∀ nowMs grace, transaction ≠ .gc nowMs grace)
    (notDeleted : ∀ id, transaction ≠ .deleteChunk id)
    (stillLive : snapshot ∈ (transaction.commit disk.tables).snapshots)
    (stored : Stored libraries keys content snapshot blob refs disk) :
    Stored libraries keys content snapshot blob refs
      { disk with tables := transaction.commit disk.tables } := by
  have live : snapshot ∈ disk.tables.snapshots := by
    rw [ExtTreeMap.mem_iff_isSome_getElem?, stored.manifest]
    rfl
  refine ⟨faithful_commit notUpload stored.faithful, fun id listed => ?_, ?_⟩
  · exact mem_chunks_commit_of_mem notGc (notDeleted id) (stored.refs id listed)
  · exact (snapshot_commit live stillLive).1.trans stored.manifest

/-- A prune that does not drop the snapshot leaves it stored. -/
theorem stored_prune {disk : Disk} {snapshot : Ulid} {blob : Bytes} {refs : List ChunkId}
    {nowMs : Int64} {policy : Retention.RetentionPolicy} (mode : PruneMode)
    (stored : Stored libraries keys content snapshot blob refs disk)
    (kept : snapshot ∉ (prunePlan nowMs policy (listSnapshots disk.tables)).drop) :
    Stored libraries keys content snapshot blob refs
      { disk with tables := (prune disk.tables nowMs policy mode).2 } := by
  refine prune_invariant (fun tables =>
    Stored libraries keys content snapshot blob refs { disk with tables := tables }) ?_ ?_ stored
  · intro current dropped planned held
    refine stored_commit (by simp) (by simp) (by simp) ?_ held
    by_contra removed
    have live : snapshot ∈ current.snapshots := by
      rw [ExtTreeMap.mem_iff_isSome_getElem?, held.manifest]
      rfl
    cases not_mem_snapshots_commit live removed
    exact kept planned
  · intro current held
    refine stored_commit (by simp) (by simp) (by simp) ?_ held
    change snapshot ∈ current.snapshots
    rw [ExtTreeMap.mem_iff_isSome_getElem?, held.manifest]
    rfl

/-- The prune after a commit keeps the committed snapshot where the daemon
retains it. -/
theorem not_mem_drop_of_retains {serving : Serving} {tables next : Tables} {snapshot : Ulid}
    (retains : serving.Retains tables snapshot) (prunes : serving.autoPrune = true)
    (older : ∀ other ∈ next.snapshots, other = snapshot ∨ other ∈ tables.snapshots) :
    snapshot ∉ (prunePlan serving.nowMs .defaultGrid (listSnapshots next)).drop := by
  intro dropped
  obtain ⟨greater, listed, less, key, inCell, greaterInCell⟩ :=
    exists_greater_of_mem_drop (listSnapshots_ascending next) dropped
  rcases older greater (mem_listSnapshots_iff.mp listed) with rfl | before
  · exact absurd (Ulid.lt_iff.mp less) (Nat.lt_irrefl _)
  · exact retains prunes greater before less (greaterInCell.trans inCell.symm)

theorem storeManifest_ok {tables next : Tables} {owner : Option String} {snapshot : Ulid}
    {blob : Bytes} {refs : List ChunkId}
    (committed : Daemon.storeManifest tables owner
      ⟨blob, snapshot.toBytes, refs.map ChunkId.asBytes⟩ = .ok next) :
    putSnapshotAs tables snapshot blob refs owner = .ok next := by
  simp only [Daemon.storeManifest, Daemon.parsePutManifest, Daemon.parseSnapshotId_toBytes,
    Daemon.parseChunkIds_asBytes] at committed
  split at committed
  next => cases committed
  next done =>
    cases committed
    exact done

/-- After the manifest was put the snapshot is stored, if the daemon retains
it. -/
theorem putManifest_ok {serving : Serving} {disk : Disk} {next : Tables} {snapshot : Ulid}
    {blob : Bytes} {refs : List ChunkId} (faithful : Faithful libraries keys content disk)
    (indexed : ∀ id ∈ refs, id ∈ disk.tables.chunks)
    (retains : serving.Retains disk.tables snapshot)
    (put : Daemon.putManifest disk.tables (Daemon.ownerOf serving.auth serving.fingerprint)
      serving.autoPrune serving.nowMs ⟨blob, snapshot.toBytes, refs.map ChunkId.asBytes⟩ =
        .ok next) :
    Stored libraries keys content snapshot blob refs { disk with tables := next } := by
  unfold Daemon.putManifest at put
  split at put
  next => cases put
  next committed committedOk =>
    have done := storeManifest_ok committedOk
    obtain ⟨_, chunks, _, inserted⟩ := putSnapshotAs_ok done
    have outcome : (Transaction.putSnapshotAs snapshot blob refs
        (Daemon.ownerOf serving.auth serving.fingerprint)).commit disk.tables = committed :=
      Transaction.commit_of_ok done
    have stored : Stored libraries keys content snapshot blob refs
        { disk with tables := committed } := by
      refine ⟨?_, fun id listed => ?_, by simp [inserted]⟩
      · rw [← outcome]
        exact faithful_commit (by simp) faithful
      · rw [← outcome]
        exact mem_chunks_commit_of_mem (by simp) (by simp) (indexed id listed)
    have older : ∀ other ∈ committed.snapshots, other = snapshot ∨
        other ∈ disk.tables.snapshots := by
      intro other live
      rw [inserted] at live
      rcases ExtTreeMap.mem_insert.mp live with same | before
      · exact .inl (LawfulEqOrd.compare_eq_iff_eq.mp same).symm
      · exact .inr before
    cases put
    split
    next prunes =>
      have pruned := stored_prune .auto stored (not_mem_drop_of_retains retains prunes older)
      exact pruned
    next => exact stored

end Commit

section Backups

variable {Threshold : Type} {libraries : Libraries} {tests : LengthTests Threshold}
  {keys : KeyPair} {nonces : Nat → Nonce} {content : Set Bytes} {serving : Serving}

/-- The chunks of the captured files belong to the set. -/
def Covers (content : Set Bytes) (request : BackupRequest Threshold) : Prop :=
  ∀ specs, collectFiles request.roots = .ok specs → ∀ spec ∈ specs, ∀ chunks,
    request.chunker spec.file.content = some chunks → ∀ data ∈ chunks, data ∈ content

/-- The manifest that was put is sealed and stored. -/
theorem commitManifest_ok {context : BackupContext Threshold} {manifest : Manifest}
    {session : Session (serving.backupPeer context.libraries.blake3)} {report : BackupReport}
    {final : Disk}
    (faithful : Faithful context.libraries context.keys content session.disk)
    (indexed : ∀ id ∈ manifest.chunkRefs, id ∈ session.disk.tables.chunks)
    (retains : serving.Retains session.disk.tables manifest.snapshotId)
    (committed : commitManifest context manifest session = .ok (report, final)) :
    ∃ encoded nonce sealedBlob, manifest.encode = .ok encoded ∧
      encryptManifest context.libraries.aead context.keys.dataKey manifest.snapshotId encoded
        nonce = .ok sealedBlob ∧
      Stored context.libraries context.keys content manifest.snapshotId sealedBlob
        manifest.chunkRefs final := by
  obtain ⟨encoded, sealedBlob, encodedOk, sealedOk, put, -⟩ :=
    exists_sealed_of_commitManifest committed
  obtain ⟨_, handled⟩ := handle_ok put
  split at handled
  next => cases handled
  next tables stored =>
    cases handled
    exact ⟨encoded, _, sealedBlob, encodedOk, sealedOk,
      putManifest_ok faithful indexed retains stored⟩

/-- A finished backup stored the sealed manifest of the collected files, with
every chunk it names. -/
theorem runBackup_ok (injective : Set.InjOn (idOf libraries keys) content) {disk final : Disk}
    {request : BackupRequest Threshold} {report : BackupReport}
    (covers : Covers content request) (faithful : Faithful libraries keys content disk)
    (retains : serving.Retains disk.tables request.snapshotId)
    (backedUp : runBackup libraries tests keys nonces (serving.backupPeer libraries.blake3) disk
      request = .ok (report, final)) :
    Daemon.authenticate serving.auth serving.fingerprint = .ok () ∧
      ∃ specs entries encoded nonce sealedBlob, collectFiles request.roots = .ok specs ∧
        List.Forall₂ (fun spec entry => ∃ chunks, request.chunker spec.file.content = some chunks ∧
          Captured libraries keys spec chunks entry) specs entries ∧
        Manifest.encode ⟨request.snapshotId, request.createdAt, entries⟩ = .ok encoded ∧
        encryptManifest libraries.aead keys.dataKey request.snapshotId encoded nonce =
          .ok sealedBlob ∧
        Stored libraries keys content request.snapshotId sealedBlob
          (Manifest.chunkRefs ⟨request.snapshotId, request.createdAt, entries⟩) final := by
  obtain ⟨existing, next, listed, context, rfl, specs, files, run, session, collected, capturedOk,
    flushed, committed⟩ := exists_steps_of_runBackup backedUp
  obtain ⟨admitted, handled⟩ := handle_ok listed
  cases handled
  obtain ⟨tracks, cuts, seen, _⟩ := captureFiles_ok injective capturedOk
    ⟨faithful, .refl disk, by simp [Proper], by simp⟩ (covers specs collected)
  obtain ⟨faithfulFlushed, grown, indexed⟩ :=
    flush_ok injective flushed tracks.faithful tracks.proper
  have refs : ∀ id ∈ Manifest.chunkRefs ⟨request.snapshotId, request.createdAt, files⟩,
      id ∈ session.disk.tables.chunks := by
    intro id listed
    obtain ⟨entry, inFiles, inChunks⟩ := List.mem_flatMap.mp listed
    rcases tracks.covered id (seen entry inFiles id inChunks) with
      before | ⟨waiting, inPending, rfl⟩
    · exact grown.chunks id before
    · exact indexed waiting inPending
  have retainsNow : serving.Retains session.disk.tables request.snapshotId := by
    unfold Serving.Retains
    rw [(tracks.grown.trans grown).snapshots]
    exact retains
  obtain ⟨encoded, nonce, sealedBlob, encodedOk, sealedOk, stored⟩ :=
    commitManifest_ok faithfulFlushed refs retainsNow committed
  exact ⟨admitted, specs, files, encoded, nonce, sealedBlob, collected, cuts, encodedOk,
    sealedOk, stored⟩

end Backups

end Busyncr.Client
