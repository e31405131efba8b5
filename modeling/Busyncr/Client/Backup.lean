import Busyncr.Client.Restore
import Busyncr.Client.Source
import Mathlib.Data.UInt

/-!
The backup pipeline: chunk every file, ask the daemon which chunks it lacks,
compress, seal and upload those in batches, and put the sealed manifest.

The nonces drawn from the caller's randomness come as a sequence, and the
chunker as a function from contents to chunks.
-/

namespace Busyncr.Client

open Std

/-- A daemon as the backup sees it. -/
structure BackupPeer where
  State : Type
  listSnapshots : State → Except Daemon.Status (List Bytes) × State
  hasChunks : State → List Bytes → Except Daemon.Status (List Bytes) × State
  uploadChunks : State → List Daemon.ChunkBlob →
    Except Daemon.Status Daemon.UploadChunksResponse × State
  putManifest : State → Daemon.PutManifestRequest → Except Daemon.Status Unit × State

structure BackupReport where
  snapshotId : Ulid
  files : UInt64
  sourceBytes : UInt64
  chunksTotal : UInt64
  chunksUnique : UInt64
  chunksUploaded : UInt64
  chunksDeduped : UInt64
  uploadBytes : UInt64
  manifestBytes : UInt64
  compression : PolicyCounters
deriving DecidableEq

def BackupReport.start (snapshotId : Ulid) : BackupReport :=
  ⟨snapshotId, 0, 0, 0, 0, 0, 0, 0, 0, .zero⟩

structure BackupRequest (Threshold : Type) where
  roots : List Root
  chunker : Bytes → Option (List Bytes)
  compression : PolicyConfig Threshold
  snapshotId : Ulid
  createdAt : Int64

/-- What every step of a backup works with. -/
structure BackupContext (Threshold : Type) where
  libraries : Libraries
  tests : LengthTests Threshold
  keys : KeyPair
  policy : PolicyConfig Threshold
  phase : Phase
  nonces : Nat → Nonce

/-- Upper bounds on what is buffered before a flush. -/
def batchMaxChunks : Nat := 64

def batchMaxBytes : Nat := 32 * 1024 * 1024

/-- The daemon, the randomness drawn and the running ledger of one backup. -/
structure Session (peer : BackupPeer) where
  state : peer.State
  drawn : Nat
  counters : PolicyCounters
  report : BackupReport

/-- Plaintext chunks awaiting a flush. -/
abbrev Pending := List (ChunkId × Bytes)

/-- The file loop's state: the session, the IDs handled so far, and the
buffer. -/
structure BackupRun (peer : BackupPeer) where
  session : Session peer
  seen : List ChunkId
  pending : Pending
  pendingBytes : Nat

/-- The IDs of a `HasChunks` reply. -/
def parseMissing : List Bytes → Except BackupError (List ChunkId)
  | [] => .ok []
  | raw :: rest =>
      match ChunkId.fromSlice? raw with
      | none => .error (.badResponse "malformed chunk ID in HasChunks reply")
      | some id =>
          match parseMissing rest with
          | .error error => .error error
          | .ok ids => .ok (id :: ids)

section Pipeline

variable {Threshold : Type} (context : BackupContext Threshold) {peer : BackupPeer}

/-- Compress, frame and seal the pending chunks the daemon lacks; count the
others as deduplicated. -/
def sealMissing (missing : List ChunkId) :
    Pending → Session peer → Except BackupError (List Daemon.ChunkBlob × Session peer)
  | [], session => .ok ([], session)
  | (id, data) :: rest, session =>
      if id ∈ missing then
        let (framed, counters) := encodeChunk context.libraries.compressors context.tests data
          context.phase context.policy session.counters
        match encryptChunk context.libraries.aead context.keys.dataKey id framed
            (context.nonces session.drawn) with
        | .error error => .error (.crypto error)
        | .ok ciphertext =>
            match sealMissing missing rest
                { session with
                  drawn := session.drawn + 1
                  counters := counters
                  report := { session.report with
                    uploadBytes := session.report.uploadBytes + UInt64.ofNat ciphertext.length
                    chunksUploaded := session.report.chunksUploaded + 1 } } with
            | .error error => .error error
            | .ok (blobs, next) => .ok (⟨id.asBytes, ciphertext⟩ :: blobs, next)
      else
        sealMissing missing rest
          { session with
            report := { session.report with
              chunksDeduped := session.report.chunksDeduped + 1 } }

/-- Ship sealed chunks; the daemon must acknowledge every one. -/
def upload (blobs : List Daemon.ChunkBlob) (session : Session peer) :
    Except BackupError (Session peer) :=
  if blobs = [] then .ok session
  else
    match peer.uploadChunks session.state blobs with
    | (.error status, _) => .error (.rpc status)
    | (.ok outcome, next) =>
        if outcome.stored + outcome.alreadyPresent ≠ UInt64.ofNat blobs.length then
          .error (.badResponse
            "UploadChunks acknowledged a different number of blobs than were sent")
        else .ok { session with state := next }

/-- Deduplicate the buffer against the daemon and upload what it lacks. -/
def flush (pending : Pending) (session : Session peer) : Except BackupError (Session peer) :=
  if pending = [] then .ok session
  else
    match peer.hasChunks session.state (pending.map fun entry => entry.1.asBytes) with
    | (.error status, _) => .error (.rpc status)
    | (.ok missingWire, next) =>
        match parseMissing missingWire with
        | .error error => .error error
        | .ok missing =>
            match sealMissing context missing pending { session with state := next } with
            | .error error => .error error
            | .ok (blobs, sealed) => upload blobs sealed

/-- Take one chunk of a file; a chunk not seen before is buffered, and a full
buffer is flushed. -/
def takeChunk (run : BackupRun peer) (data : Bytes) : Except BackupError (BackupRun peer) :=
  let id := ChunkId.keyed context.libraries.blake3 context.keys.chunkIdKey data
  let session := { run.session with
    report := { run.session.report with chunksTotal := run.session.report.chunksTotal + 1 } }
  if id ∈ run.seen then .ok { run with session := session }
  else
    let session := { session with
      report := { session.report with chunksUnique := session.report.chunksUnique + 1 } }
    let pendingBytes := run.pendingBytes + data.length
    let pending := run.pending ++ [(id, data)]
    if batchMaxChunks ≤ pending.length ∨ batchMaxBytes ≤ pendingBytes then
      match flush context pending session with
      | .error error => .error error
      | .ok flushed => .ok ⟨flushed, id :: run.seen, [], 0⟩
    else .ok ⟨session, id :: run.seen, pending, pendingBytes⟩

def takeChunks : List Bytes → BackupRun peer → Except BackupError (BackupRun peer)
  | [], run => .ok run
  | data :: rest, run =>
      match takeChunk context run data with
      | .error error => .error error
      | .ok next => takeChunks rest next

/-- The manifest entry of a file that was cut into these chunks. -/
def entryOf (spec : FileSpec) (chunks : List Bytes) : FileEntry where
  path := spec.rel
  size := (chunks.map fun data => UInt64.ofNat data.length).sum
  mtimeSecs := (mtimeParts spec.file.modified).1
  mtimeNanos := (mtimeParts spec.file.modified).2
  mode := spec.file.mode
  chunks := chunks.map (ChunkId.keyed context.libraries.blake3 context.keys.chunkIdKey)

/-- Chunk one file and record its entry. -/
def captureFile (chunker : Bytes → Option (List Bytes)) (spec : FileSpec) (run : BackupRun peer) :
    Except BackupError (FileEntry × BackupRun peer) :=
  match chunker spec.file.content with
  | none => .error .chunking
  | some chunks =>
      match takeChunks context chunks run with
      | .error error => .error error
      | .ok next =>
          let entry := entryOf context spec chunks
          let report := next.session.report
          .ok (entry, { next with
            session.report := { report with
              files := report.files + 1
              sourceBytes := report.sourceBytes + entry.size } })

def captureFiles (chunker : Bytes → Option (List Bytes)) :
    List FileSpec → BackupRun peer → Except BackupError (List FileEntry × BackupRun peer)
  | [], run => .ok ([], run)
  | spec :: rest, run =>
      match captureFile context chunker spec run with
      | .error error => .error error
      | .ok (entry, next) =>
          match captureFiles chunker rest next with
          | .error error => .error error
          | .ok (entries, final) => .ok (entry :: entries, final)

/-- Encode, seal and put the manifest. -/
def commitManifest (manifest : Manifest) (session : Session peer) :
    Except BackupError (BackupReport × peer.State) :=
  match manifest.encode with
  | .error error => .error (.manifest error)
  | .ok encoded =>
      match encryptManifest context.libraries.aead context.keys.dataKey manifest.snapshotId encoded
          (context.nonces session.drawn) with
      | .error error => .error (.crypto error)
      | .ok sealed =>
          match peer.putManifest session.state
              ⟨sealed, manifest.snapshotId.toBytes, manifest.chunkRefs.map ChunkId.asBytes⟩ with
          | (.error status, _) => .error (.rpc status)
          | (.ok (), next) =>
              .ok ({ session.report with
                compression := session.counters
                manifestBytes := UInt64.ofNat sealed.length }, next)

section Inversion

variable {context : BackupContext Threshold}

/-- An upload that succeeds had nothing to send, or was acknowledged. -/
theorem exists_reply_of_upload {blobs : List Daemon.ChunkBlob} {session next : Session peer}
    (uploaded : upload blobs session = .ok next) :
    blobs = [] ∧ next = session ∨
      ∃ outcome state, peer.uploadChunks session.state blobs = (.ok outcome, state) ∧
        next = { session with state := state } := by
  unfold upload at uploaded
  split at uploaded
  next none =>
    cases uploaded
    exact .inl ⟨none, rfl⟩
  next =>
    split at uploaded
    next => cases uploaded
    next outcome state replied =>
      split at uploaded
      next => cases uploaded
      next =>
        cases uploaded
        exact .inr ⟨outcome, state, replied, rfl⟩

/-- A flush that succeeds had nothing pending, or went through all its
requests. -/
theorem exists_steps_of_flush {pending : Pending} {session next : Session peer}
    (flushed : flush context pending session = .ok next) :
    pending = [] ∧ next = session ∨
      ∃ missingWire state missing blobs sealedSession,
        peer.hasChunks session.state (pending.map fun entry => entry.1.asBytes) =
          (.ok missingWire, state) ∧
        parseMissing missingWire = .ok missing ∧
        sealMissing context missing pending { session with state := state } =
          .ok (blobs, sealedSession) ∧
        upload blobs sealedSession = .ok next := by
  unfold flush at flushed
  split at flushed
  next none =>
    cases flushed
    exact .inl ⟨none, rfl⟩
  next =>
    split at flushed
    next => cases flushed
    next missingWire state answered =>
      split at flushed
      next => cases flushed
      next missing parsed =>
        split at flushed
        next => cases flushed
        next blobs sealedSession sealedOk =>
          exact .inr ⟨missingWire, state, missing, blobs, sealedSession, answered, parsed,
            sealedOk, flushed⟩

/-- A captured file was cut and all its chunks taken. -/
theorem exists_chunks_of_captureFile {chunker : Bytes → Option (List Bytes)} {spec : FileSpec}
    {run next : BackupRun peer} {entry : FileEntry}
    (captured : captureFile context chunker spec run = .ok (entry, next)) :
    ∃ chunks taken, chunker spec.file.content = some chunks ∧
      takeChunks context chunks run = .ok taken ∧ entry = entryOf context spec chunks ∧
      next = { taken with
        session.report := { taken.session.report with
          files := taken.session.report.files + 1
          sourceBytes := taken.session.report.sourceBytes + entry.size } } := by
  unfold captureFile at captured
  split at captured
  next => cases captured
  next chunks cut =>
    split at captured
    next => cases captured
    next taken takenOk =>
      cases captured
      exact ⟨chunks, taken, cut, takenOk, rfl, rfl⟩

/-- A committed manifest was encoded, sealed and put. -/
theorem exists_sealed_of_commitManifest {manifest : Manifest} {session : Session peer}
    {report : BackupReport} {final : peer.State}
    (committed : commitManifest context manifest session = .ok (report, final)) :
    ∃ encoded sealedBlob, manifest.encode = .ok encoded ∧
      encryptManifest context.libraries.aead context.keys.dataKey manifest.snapshotId encoded
        (context.nonces session.drawn) = .ok sealedBlob ∧
      peer.putManifest session.state
        ⟨sealedBlob, manifest.snapshotId.toBytes, manifest.chunkRefs.map ChunkId.asBytes⟩ =
          (.ok (), final) ∧
      report = { session.report with
        compression := session.counters
        manifestBytes := UInt64.ofNat sealedBlob.length } := by
  unfold commitManifest at committed
  split at committed
  next => cases committed
  next encoded encodedOk =>
    split at committed
    next => cases committed
    next sealedBlob sealedOk =>
      split at committed
      next => cases committed
      next next put =>
        cases committed
        exact ⟨encoded, sealedBlob, encodedOk, sealedOk, put, rfl⟩

end Inversion

end Pipeline

section Run

variable {Threshold : Type} (libraries : Libraries) (tests : LengthTests Threshold)
  (keys : KeyPair) (nonces : Nat → Nonce)

/-- One backup is one snapshot; with the daemon's state after it. -/
def runBackup (peer : BackupPeer) (state : peer.State) (request : BackupRequest Threshold) :
    Except BackupError (BackupReport × peer.State) :=
  match peer.listSnapshots state with
  | (.error status, _) => .error (.rpc status)
  | (.ok existing, next) =>
      let context : BackupContext Threshold :=
        { libraries, tests, keys, nonces
          policy := request.compression
          phase := if existing = [] then .initialFull else .incremental }
      match collectFiles request.roots with
      | .error error => .error error
      | .ok specs =>
          match captureFiles context request.chunker specs
              ⟨⟨next, 0, .zero, .start request.snapshotId⟩, [], [], 0⟩ with
          | .error error => .error error
          | .ok (files, run) =>
              match flush context run.pending run.session with
              | .error error => .error error
              | .ok session =>
                  commitManifest context ⟨request.snapshotId, request.createdAt, files⟩ session

variable {libraries tests keys nonces}

/-- The steps of a backup that succeeds. -/
theorem exists_steps_of_runBackup {peer : BackupPeer} {state final : peer.State}
    {request : BackupRequest Threshold} {report : BackupReport}
    (backedUp : runBackup libraries tests keys nonces peer state request = .ok (report, final)) :
    ∃ existing next, peer.listSnapshots state = (.ok existing, next) ∧
      ∃ context : BackupContext Threshold,
        context = { libraries, tests, keys, nonces
                    policy := request.compression
                    phase := if existing = [] then .initialFull else .incremental } ∧
      ∃ specs files run session, collectFiles request.roots = .ok specs ∧
        captureFiles context request.chunker specs
          ⟨⟨next, 0, .zero, .start request.snapshotId⟩, [], [], 0⟩ = .ok (files, run) ∧
        flush context run.pending run.session = .ok session ∧
        commitManifest context ⟨request.snapshotId, request.createdAt, files⟩ session =
          .ok (report, final) := by
  unfold runBackup at backedUp
  split at backedUp
  next => cases backedUp
  next existing next listed =>
    dsimp only at backedUp
    split at backedUp
    next => cases backedUp
    next specs collected =>
      split at backedUp
      next => cases backedUp
      next files run captured =>
        split at backedUp
        next => cases backedUp
        next session flushed =>
          exact ⟨existing, next, listed, _, rfl, specs, files, run, session, collected, captured,
            flushed, backedUp⟩

end Run

/-- How a daemon serves one client: its registry, the client's certificate,
whether it prunes on its own and the clock it reads then. -/
structure Serving where
  auth : Option Daemon.Registry
  fingerprint : Option String
  autoPrune : Bool
  nowMs : Int64

/-- Every handler authenticates its caller first. -/
def Serving.handle {Value : Type} (serving : Serving) (disk : Store.Disk)
    (handler : Except Daemon.Status Value × Store.Disk) :
    Except Daemon.Status Value × Store.Disk :=
  match Daemon.authenticate serving.auth serving.fingerprint with
  | .error status => (.error status, disk)
  | .ok () => handler

/-- The daemon's handlers as a backup sees them. -/
def Serving.backupPeer (blake3 : Blake3) (serving : Serving) : BackupPeer where
  State := Store.Disk
  listSnapshots disk :=
    serving.handle disk (.ok ((Store.listSnapshots disk.tables).map Ulid.toBytes), disk)
  hasChunks disk ids := serving.handle disk (Daemon.hasChunks disk.tables ids, disk)
  uploadChunks disk blobs := serving.handle disk (Daemon.uploadChunks blake3 disk ⟨0, 0⟩ blobs)
  putManifest disk request := serving.handle disk
    (match Daemon.putManifest disk.tables (Daemon.ownerOf serving.auth serving.fingerprint)
        serving.autoPrune serving.nowMs request with
    | .error status => (.error status, disk)
    | .ok tables => (.ok (), { disk with tables := tables }))

/-- The daemon's handlers as a restore sees them. -/
def Serving.restorePeer (blake3 : Blake3) (serving : Serving) : Peer where
  State := Store.Disk
  getManifest disk id := serving.handle disk (Daemon.getManifest disk.tables id, disk)
  getChunks disk ids := serving.handle disk (Daemon.getChunks blake3 disk ids, disk)

end Busyncr.Client
