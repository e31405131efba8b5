import Busyncr.Client.MessageSize
import Busyncr.Store.Sequences

/-!
A finished backup as a sequence of store operations: uploads of sealed
chunks, the snapshot, and the prune of a daemon that prunes on its own.
-/

namespace Busyncr.Client

open Std Store

section Uploads

variable (libraries : Libraries) (keys : KeyPair) (content : Set Bytes)

/-- An upload of a blob sealed from a plaintext of the set. -/
def SealedUpload (operation : Operation) : Prop :=
  ∃ plaintext ∈ content, ∃ blob, SealedFrom libraries keys plaintext blob ∧
    operation = .putChunk (idOf libraries keys plaintext) blob

/-- Nothing but such uploads led from one state of the store to the other. -/
def UploadedTo (before after : Disk) : Prop :=
  ∃ uploads, (∀ operation ∈ uploads, SealedUpload libraries keys content operation) ∧
    after = runAll libraries.blake3 before uploads

variable {libraries keys content}

theorem uploadedTo_refl (disk : Disk) : UploadedTo libraries keys content disk disk :=
  ⟨[], by simp, rfl⟩

theorem UploadedTo.trans {first second third : Disk}
    (before : UploadedTo libraries keys content first second)
    (after : UploadedTo libraries keys content second third) :
    UploadedTo libraries keys content first third := by
  obtain ⟨uploads, sealedUploads, rfl⟩ := before
  obtain ⟨more, sealedMore, rfl⟩ := after
  refine ⟨uploads ++ more, ?_, (runAll_append uploads more).symm⟩
  intro operation listed
  rcases List.mem_append.mp listed with earlier | later
  · exact sealedUploads operation earlier
  · exact sealedMore operation later

theorem uploadedTo_uploadChunks {blobs : List Daemon.ChunkBlob} {disk : Disk}
    {counted : Daemon.UploadChunksResponse}
    (sealedBlobs : ∀ blob ∈ blobs, SealedBlob libraries keys content blob) :
    UploadedTo libraries keys content disk
      (Daemon.uploadChunks libraries.blake3 disk counted blobs).2 := by
  induction blobs generalizing disk counted with
  | nil => exact uploadedTo_refl disk
  | cons blob rest inductionHypothesis =>
      obtain ⟨⟨plaintext, inSet, named, sealedFrom⟩, tail⟩ := List.forall_mem_cons.mp sealedBlobs
      have head : UploadedTo libraries keys content disk
          (putChunk libraries.blake3 disk (idOf libraries keys plaintext) blob.data).2 := by
        refine ⟨[.putChunk (idOf libraries keys plaintext) blob.data], ?_, rfl⟩
        intro operation listed
        exact ⟨plaintext, inSet, blob.data, sealedFrom, List.mem_singleton.mp listed⟩
      simp only [Daemon.uploadChunks, named, Daemon.parseChunkId_asBytes]
      split
      next stored =>
        rw [stored] at head
        exact head.trans (inductionHypothesis tail)
      next stored =>
        rw [stored] at head
        exact head.trans (inductionHypothesis tail)

end Uploads

section Pipeline

variable {Threshold : Type} {context : BackupContext Threshold} {content : Set Bytes}
  {serving : Serving}

theorem uploadedTo_upload
    {session next : Session (serving.backupPeer context.libraries.blake3)}
    {blobs : List Daemon.ChunkBlob}
    (sealedBlobs : ∀ blob ∈ blobs, SealedBlob context.libraries context.keys content blob)
    (uploaded : upload blobs session = .ok next) :
    UploadedTo context.libraries context.keys content session.disk next.disk := by
  obtain ⟨rfl, rfl⟩ | ⟨outcome, state, answered, rfl⟩ := exists_reply_of_upload uploaded
  · exact uploadedTo_refl _
  · obtain ⟨-, handled⟩ := handle_ok answered
    have sent : UploadedTo context.libraries context.keys content session.disk
        (Daemon.uploadChunks context.libraries.blake3 session.disk ⟨0, 0⟩ blobs).2 :=
      uploadedTo_uploadChunks sealedBlobs
    rw [Session.disk, handled] at sent
    exact sent

theorem uploadedTo_flush
    {session next : Session (serving.backupPeer context.libraries.blake3)} {pending : Pending}
    (proper : Proper context content pending)
    (flushed : flush context pending session = .ok next) :
    UploadedTo context.libraries context.keys content session.disk next.disk := by
  obtain ⟨rfl, rfl⟩ | ⟨missingWire, state, missing, blobs, sealedSession, answered, parsed,
    sealedOk, uploaded⟩ := exists_steps_of_flush flushed
  · exact uploadedTo_refl _
  · obtain ⟨sameState, fromPending, -⟩ := sealMissing_ok sealedOk
    obtain ⟨sameDisk, -⟩ := hasChunks_ok answered parsed
    have unchanged : sealedSession.disk = session.disk := sameState.trans sameDisk
    rw [← unchanged]
    apply uploadedTo_upload ?_ uploaded
    intro blob listed
    obtain ⟨entry, inPending, named, chosen, nonce, represents, encrypted⟩ := fromPending blob listed
    obtain ⟨identified, inSet⟩ := proper entry inPending
    rw [identified] at named encrypted
    exact ⟨entry.2, inSet, named, chosen, nonce, represents, encrypted⟩

/-- A step of the file loop uploaded sealed chunks and keeps the buffer
proper. -/
structure Advances (context : BackupContext Threshold) (content : Set Bytes)
    (run next : BackupRun (serving.backupPeer context.libraries.blake3)) : Prop where
  uploaded : UploadedTo context.libraries context.keys content run.session.disk next.session.disk
  proper : Proper context content next.pending

theorem advances_takeChunk {run next : BackupRun (serving.backupPeer context.libraries.blake3)}
    {data : Bytes} (proper : Proper context content run.pending) (inSet : data ∈ content)
    (taken : takeChunk context run data = .ok next) : Advances context content run next := by
  simp only [takeChunk] at taken
  split at taken
  next =>
    cases taken
    exact ⟨uploadedTo_refl _, proper⟩
  next =>
    have added : Proper context content
        (run.pending ++ [(idOf context.libraries context.keys data, data)]) := by
      intro entry listed
      rcases List.mem_append.mp listed with earlier | last
      · exact proper entry earlier
      · obtain rfl := List.mem_singleton.mp last
        exact ⟨rfl, inSet⟩
    split at taken
    next =>
      split at taken
      next => cases taken
      next flushed flushedOk =>
        cases taken
        have sent := uploadedTo_flush added flushedOk
        exact ⟨sent, by simp [Proper]⟩
    next =>
      cases taken
      exact ⟨uploadedTo_refl _, added⟩

theorem advances_takeChunks {chunks : List Bytes}
    {run next : BackupRun (serving.backupPeer context.libraries.blake3)}
    (proper : Proper context content run.pending) (inSet : ∀ data ∈ chunks, data ∈ content)
    (taken : takeChunks context chunks run = .ok next) : Advances context content run next := by
  induction chunks generalizing run with
  | nil =>
      cases taken
      exact ⟨uploadedTo_refl _, proper⟩
  | cons data rest inductionHypothesis =>
      obtain ⟨head, tail⟩ := List.forall_mem_cons.mp inSet
      simp only [takeChunks] at taken
      split at taken
      next => cases taken
      next middle first =>
        obtain ⟨uploaded, properMiddle⟩ := advances_takeChunk proper head first
        obtain ⟨onward, properNext⟩ := inductionHypothesis properMiddle tail taken
        exact ⟨uploaded.trans onward, properNext⟩

theorem advances_captureFile {chunker : Bytes → Option (List Bytes)} {spec : FileSpec}
    {entry : FileEntry} {run next : BackupRun (serving.backupPeer context.libraries.blake3)}
    (proper : Proper context content run.pending)
    (inSet : ∀ chunks, chunker spec.file.content = some chunks → ∀ data ∈ chunks, data ∈ content)
    (captured : captureFile context chunker spec run = .ok (entry, next)) :
    Advances context content run next := by
  obtain ⟨chunks, taken, cut, takenOk, -, rfl⟩ := exists_chunks_of_captureFile captured
  obtain ⟨uploaded, properTaken⟩ := advances_takeChunks proper (inSet chunks cut) takenOk
  exact ⟨uploaded, properTaken⟩

theorem advances_captureFiles {chunker : Bytes → Option (List Bytes)} {specs : List FileSpec}
    {entries : List FileEntry}
    {run next : BackupRun (serving.backupPeer context.libraries.blake3)}
    (proper : Proper context content run.pending)
    (inSet : ∀ spec ∈ specs, ∀ chunks, chunker spec.file.content = some chunks →
      ∀ data ∈ chunks, data ∈ content)
    (captured : captureFiles context chunker specs run = .ok (entries, next)) :
    Advances context content run next := by
  induction specs generalizing run entries with
  | nil =>
      cases captured
      exact ⟨uploadedTo_refl _, proper⟩
  | cons spec rest inductionHypothesis =>
      obtain ⟨head, tail⟩ := List.forall_mem_cons.mp inSet
      simp only [captureFiles] at captured
      split at captured
      next => cases captured
      next entry middle capturedFirst =>
        split at captured
        next => cases captured
        next others final capturedRest =>
          cases captured
          obtain ⟨uploaded, properMiddle⟩ := advances_captureFile proper head capturedFirst
          obtain ⟨onward, properNext⟩ := inductionHypothesis properMiddle tail capturedRest
          exact ⟨uploaded.trans onward, properNext⟩

theorem captured_of_captureFiles {chunker : Bytes → Option (List Bytes)} {specs : List FileSpec}
    {entries : List FileEntry} {peer : BackupPeer} {run next : BackupRun peer}
    (captured : captureFiles context chunker specs run = .ok (entries, next)) :
    List.Forall₂ (fun spec entry => ∃ chunks, chunker spec.file.content = some chunks ∧
      Captured context.libraries context.keys spec chunks entry) specs entries := by
  apply (entries_of_captureFiles captured).imp
  rintro spec entry ⟨chunks, cut, rfl⟩
  exact ⟨chunks, cut, captured_entryOf spec chunks⟩

end Pipeline

section Backups

variable {Threshold : Type} {libraries : Libraries} {tests : LengthTests Threshold}
  {keys : KeyPair} {nonces : Nat → Nonce} {content : Set Bytes} {serving : Serving}

/-- The prune of a daemon that prunes on its own. -/
def pruning (serving : Serving) : List Operation :=
  if serving.autoPrune then [.prune serving.nowMs .defaultGrid .auto] else []

/-- The snapshot a backup puts, with the prune of the daemon after it. -/
def shipping (serving : Serving) (snapshot : Ulid) (blob : Bytes) (refs : List ChunkId) :
    List Operation :=
  .putSnapshotAs snapshot blob refs (Daemon.ownerOf serving.auth serving.fingerprint) ::
    pruning serving

theorem runAll_shipping {disk : Disk} {tables : Tables} {snapshot : Ulid} {blob : Bytes}
    {refs : List ChunkId}
    (put : Daemon.putManifest disk.tables (Daemon.ownerOf serving.auth serving.fingerprint)
      serving.autoPrune serving.nowMs ⟨blob, snapshot.toBytes, refs.map ChunkId.asBytes⟩ =
        .ok tables) :
    { disk with tables := tables } =
        runAll libraries.blake3 disk (shipping serving snapshot blob refs) ∧
      ((Operation.putSnapshotAs snapshot blob refs
        (Daemon.ownerOf serving.auth serving.fingerprint)).run libraries.blake3 disk).1 =
          .finished (.ok ()) := by
  unfold Daemon.putManifest at put
  split at put
  next => cases put
  next committed committedOk =>
    have stored := storeManifest_ok committedOk
    cases put
    unfold shipping pruning runAll
    cases serving.autoPrune with
    | false => simp [Operation.run, stored, finish]
    | true => simp [Operation.run, stored, finish]

/-- What a finished backup did to the store. -/
structure BackedUp (libraries : Libraries) (keys : KeyPair) (content : Set Bytes)
    (serving : Serving) (request : BackupRequest Threshold) (before after : Disk)
    (specs : List FileSpec) (entries : List FileEntry) (blob : Bytes) : Prop where
  collected : collectFiles request.roots = .ok specs
  captured : List.Forall₂ (fun spec entry => ∃ chunks,
    request.chunker spec.file.content = some chunks ∧
      Captured libraries keys spec chunks entry) specs entries
  sealedManifest : ∃ encoded nonce,
    Manifest.encode ⟨request.snapshotId, request.createdAt, entries⟩ = .ok encoded ∧
      encryptManifest libraries.aead keys.dataKey request.snapshotId encoded nonce = .ok blob
  shipped : ∃ middle, UploadedTo libraries keys content before middle ∧
    after = runAll libraries.blake3 middle (shipping serving request.snapshotId blob
      (entries.flatMap FileEntry.chunks)) ∧
    ((Operation.putSnapshotAs request.snapshotId blob (entries.flatMap FileEntry.chunks)
      (Daemon.ownerOf serving.auth serving.fingerprint)).run libraries.blake3 middle).1 =
        .finished (.ok ())

theorem exists_backedUp_of_runBackup {disk final : Disk} {request : BackupRequest Threshold}
    {report : BackupReport} (covers : Covers content request)
    (backedUp : runBackup libraries tests keys nonces (serving.backupPeer libraries.blake3) disk
      request = .ok (report, final)) :
    ∃ specs entries blob,
      BackedUp libraries keys content serving request disk final specs entries blob := by
  obtain ⟨existing, next, listed, context, rfl, specs, files, run, session, collected, capturedOk,
    flushed, committed⟩ := exists_steps_of_runBackup backedUp
  obtain ⟨-, handled⟩ := handle_ok listed
  cases handled
  obtain ⟨uploaded, proper⟩ := advances_captureFiles (by simp [Proper])
    (covers specs collected) capturedOk
  have onward := uploadedTo_flush proper flushed
  obtain ⟨encoded, blob, encodedOk, sealedOk, put, -⟩ := exists_sealed_of_commitManifest committed
  obtain ⟨-, answered⟩ := handle_ok put
  split at answered
  next => cases answered
  next tables stored =>
    cases answered
    obtain ⟨shippedTo, accepted⟩ := runAll_shipping stored
    exact ⟨specs, files, blob, collected, captured_of_captureFiles capturedOk,
      ⟨encoded, _, encodedOk, sealedOk⟩, session.disk, uploaded.trans onward, shippedTo, accepted⟩

end Backups

end Busyncr.Client
