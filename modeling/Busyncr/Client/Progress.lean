import Busyncr.Client.Backup

/-!
The backup with its progress callback, and with a record of the requests it
sends.

The callback gets the running report after every batch flushed in the middle
of a file, after every file, and once more after the last flush.  What it was
given before a failure stays given, so the observations come beside the
outcome.
-/

namespace Busyncr.Client

/-- What is known of the work ahead before the first file is read. -/
structure BackupTotals where
  totalFiles : UInt64
  totalBytes : UInt64
deriving DecidableEq

/-- One call of the progress callback. -/
structure Observation where
  report : BackupReport
  totals : BackupTotals
  final : Bool
deriving DecidableEq

/-- The keyed ID under which a backup handles a chunk. -/
abbrev BackupContext.idOf {Threshold : Type} (context : BackupContext Threshold) (data : Bytes) :
    ChunkId :=
  ChunkId.keyed context.libraries.blake3 context.keys.chunkIdKey data

def totalsOf (specs : List FileSpec) : BackupTotals where
  totalFiles := UInt64.ofNat specs.length
  totalBytes := (specs.map fun spec => UInt64.ofNat spec.file.content.length).sum

section Pipeline

variable {Threshold : Type} (context : BackupContext Threshold) {peer : BackupPeer}
  (totals : BackupTotals)

/-- Whether taking this chunk fills the buffer. -/
def Flushes (run : BackupRun peer) (data : Bytes) : Prop :=
  context.idOf data ∉ run.seen ∧
    (batchMaxChunks ≤ run.pending.length + 1 ∨ batchMaxBytes ≤ run.pendingBytes + data.length)

instance (run : BackupRun peer) (data : Bytes) : Decidable (Flushes context run data) :=
  inferInstanceAs (Decidable (_ ∧ _))

/-- The session after counting one more reference. -/
def BackupRun.counted (run : BackupRun peer) : Session peer :=
  { run.session with
    report := { run.session.report with chunksTotal := run.session.report.chunksTotal + 1 } }

/-- The session after counting one more reference to a new chunk. -/
def BackupRun.countedNew (run : BackupRun peer) : Session peer :=
  { run.session with
    report := { run.session.report with
      chunksTotal := run.session.report.chunksTotal + 1
      chunksUnique := run.session.report.chunksUnique + 1 } }

section Cases

variable {context} {run : BackupRun peer} {data : Bytes}

theorem takeChunk_of_seen (known : context.idOf data ∈ run.seen) :
    takeChunk context run data = .ok { run with session := run.counted } := by
  simp only [takeChunk, if_pos known]
  rfl

theorem takeChunk_of_flushes (full : Flushes context run data) :
    takeChunk context run data =
      (flush context (run.pending ++ [(context.idOf data, data)]) run.countedNew).map
        fun flushed => ⟨flushed, context.idOf data :: run.seen, [], 0⟩ := by
  have filled : batchMaxChunks ≤ (run.pending ++ [(context.idOf data, data)]).length ∨
      batchMaxBytes ≤ run.pendingBytes + data.length := by
    simpa using full.2
  simp only [takeChunk, if_neg full.1, if_pos filled, BackupRun.countedNew]
  cases flush context _ _ with
  | error error => rfl
  | ok flushed => rfl

theorem takeChunk_of_buffers (fresh : context.idOf data ∉ run.seen)
    (room : ¬ Flushes context run data) :
    takeChunk context run data = .ok ⟨run.countedNew, context.idOf data :: run.seen,
      run.pending ++ [(context.idOf data, data)], run.pendingBytes + data.length⟩ := by
  have unfilled : ¬ (batchMaxChunks ≤ (run.pending ++ [(context.idOf data, data)]).length ∨
      batchMaxBytes ≤ run.pendingBytes + data.length) := by
    simpa [Flushes, fresh] using room
  simp only [takeChunk, if_neg fresh, if_neg unfilled]
  rfl

end Cases

def takeChunksObserved : List Bytes → BackupRun peer →
    List Observation × Except BackupError (BackupRun peer)
  | [], run => ([], .ok run)
  | data :: rest, run =>
      match takeChunk context run data with
      | .error error => ([], .error error)
      | .ok next =>
          let (observed, outcome) := takeChunksObserved rest next
          (if Flushes context run data then ⟨next.session.report, totals, false⟩ :: observed
            else observed, outcome)

def captureFileObserved (chunker : Bytes → Option (List Bytes)) (spec : FileSpec)
    (run : BackupRun peer) : List Observation × Except BackupError (FileEntry × BackupRun peer) :=
  match chunker spec.file.content with
  | none => ([], .error .chunking)
  | some chunks =>
      match takeChunksObserved context totals chunks run with
      | (observed, .error error) => (observed, .error error)
      | (observed, .ok next) =>
          let entry := entryOf context spec chunks
          let report := { next.session.report with
            files := next.session.report.files + 1
            sourceBytes := next.session.report.sourceBytes + entry.size }
          (observed ++ [⟨report, totals, false⟩],
            .ok (entry, { next with session.report := report }))

def captureFilesObserved (chunker : Bytes → Option (List Bytes)) :
    List FileSpec → BackupRun peer →
      List Observation × Except BackupError (List FileEntry × BackupRun peer)
  | [], run => ([], .ok ([], run))
  | spec :: rest, run =>
      match captureFileObserved context totals chunker spec run with
      | (observed, .error error) => (observed, .error error)
      | (observed, .ok (entry, next)) =>
          match captureFilesObserved chunker rest next with
          | (more, .error error) => (observed ++ more, .error error)
          | (more, .ok (entries, final)) => (observed ++ more, .ok (entry :: entries, final))

theorem final_takeChunksObserved (chunks : List Bytes) (run : BackupRun peer) :
    ∀ observation ∈ (takeChunksObserved context totals chunks run).1,
      observation.final = false := by
  induction chunks generalizing run with
  | nil => simp [takeChunksObserved]
  | cons data rest inductionHypothesis =>
      simp only [takeChunksObserved]
      cases takeChunk context run data with
      | error error => simp
      | ok next =>
          simp only
          split
          next => exact List.forall_mem_cons.mpr ⟨rfl, inductionHypothesis next⟩
          next => exact inductionHypothesis next

theorem final_captureFileObserved (chunker : Bytes → Option (List Bytes)) (spec : FileSpec)
    (run : BackupRun peer) :
    ∀ observation ∈ (captureFileObserved context totals chunker spec run).1,
      observation.final = false := by
  unfold captureFileObserved
  cases chunker spec.file.content with
  | none => simp
  | some chunks =>
      have unfinished := final_takeChunksObserved context totals chunks run
      simp only
      generalize takeChunksObserved context totals chunks run = outcome at unfinished ⊢
      obtain ⟨observed, reached⟩ := outcome
      cases reached with
      | error error => exact unfinished
      | ok next => exact List.forall_mem_append.mpr ⟨unfinished, by simp⟩

/-- No observation before the last flush is marked final. -/
theorem final_captureFilesObserved (chunker : Bytes → Option (List Bytes))
    (specs : List FileSpec) (run : BackupRun peer) :
    ∀ observation ∈ (captureFilesObserved context totals chunker specs run).1,
      observation.final = false := by
  induction specs generalizing run with
  | nil => simp [captureFilesObserved]
  | cons spec rest inductionHypothesis =>
      have unfinished := final_captureFileObserved context totals chunker spec run
      simp only [captureFilesObserved]
      generalize captureFileObserved context totals chunker spec run = outcome at unfinished ⊢
      obtain ⟨observed, reached⟩ := outcome
      cases reached with
      | error error => exact unfinished
      | ok captured =>
          have later := inductionHypothesis captured.2
          simp only
          generalize captureFilesObserved context totals chunker rest captured.2 = remaining
            at later ⊢
          obtain ⟨more, completed⟩ := remaining
          cases completed with
          | error error => exact List.forall_mem_append.mpr ⟨unfinished, later⟩
          | ok final => exact List.forall_mem_append.mpr ⟨unfinished, later⟩

/-- Observing changes nothing in the chunk loop. -/
theorem takeChunksObserved_snd (chunks : List Bytes) (run : BackupRun peer) :
    (takeChunksObserved context totals chunks run).2 = takeChunks context chunks run := by
  induction chunks generalizing run with
  | nil => rfl
  | cons data rest inductionHypothesis =>
      simp only [takeChunksObserved, takeChunks]
      cases takeChunk context run data with
      | error error => rfl
      | ok next => exact inductionHypothesis next

theorem captureFileObserved_snd (chunker : Bytes → Option (List Bytes)) (spec : FileSpec)
    (run : BackupRun peer) :
    (captureFileObserved context totals chunker spec run).2 =
      captureFile context chunker spec run := by
  unfold captureFileObserved captureFile
  cases chunker spec.file.content with
  | none => rfl
  | some chunks =>
      simp only [← takeChunksObserved_snd context totals chunks run]
      obtain ⟨observed, outcome⟩ := takeChunksObserved context totals chunks run
      cases outcome with
      | error error => rfl
      | ok next => rfl

theorem captureFilesObserved_snd (chunker : Bytes → Option (List Bytes)) (specs : List FileSpec)
    (run : BackupRun peer) :
    (captureFilesObserved context totals chunker specs run).2 =
      captureFiles context chunker specs run := by
  induction specs generalizing run with
  | nil => rfl
  | cons spec rest inductionHypothesis =>
      simp only [captureFilesObserved, captureFiles,
        ← captureFileObserved_snd context totals chunker spec run]
      obtain ⟨observed, outcome⟩ := captureFileObserved context totals chunker spec run
      cases outcome with
      | error error => rfl
      | ok captured =>
          obtain ⟨entry, next⟩ := captured
          simp only [← inductionHypothesis next]
          obtain ⟨more, remaining⟩ := captureFilesObserved context totals chunker rest next
          cases remaining with
          | error error => rfl
          | ok completed => rfl

end Pipeline

section Run

variable {Threshold : Type} (libraries : Libraries) (tests : LengthTests Threshold)
  (keys : KeyPair) (nonces : Nat → Nonce)

/-- What a backup works with after the daemon named its snapshots. -/
def contextOf (request : BackupRequest Threshold) (existing : List Bytes) :
    BackupContext Threshold where
  libraries := libraries
  tests := tests
  keys := keys
  policy := request.compression
  phase := if existing = [] then .initialFull else .incremental
  nonces := nonces

/-- The run before the first file. -/
def BackupRun.start {peer : BackupPeer} (state : peer.State) (snapshotId : Ulid) :
    BackupRun peer :=
  ⟨⟨state, 0, .zero, .start snapshotId⟩, [], [], 0⟩

def runBackupWithProgress (peer : BackupPeer) (state : peer.State)
    (request : BackupRequest Threshold) :
    List Observation × Except BackupError (BackupReport × peer.State) :=
  match peer.listSnapshots state with
  | (.error status, _) => ([], .error (.rpc status))
  | (.ok existing, next) =>
      let context := contextOf libraries tests keys nonces request existing
      match collectFiles request.roots with
      | .error error => ([], .error error)
      | .ok specs =>
          let totals := totalsOf specs
          match captureFilesObserved context totals request.chunker specs
              (.start next request.snapshotId) with
          | (observed, .error error) => (observed, .error error)
          | (observed, .ok (files, run)) =>
              match flush context run.pending run.session with
              | .error error => (observed, .error error)
              | .ok session =>
                  (observed ++ [⟨session.report, totals, true⟩],
                    commitManifest context ⟨request.snapshotId, request.createdAt, files⟩ session)

/-- A backup is a backup whose progress nobody watches. -/
theorem runBackupWithProgress_snd (peer : BackupPeer) (state : peer.State)
    (request : BackupRequest Threshold) :
    (runBackupWithProgress libraries tests keys nonces peer state request).2 =
      runBackup libraries tests keys nonces peer state request := by
  unfold runBackupWithProgress runBackup
  obtain ⟨reply, next⟩ := peer.listSnapshots state
  cases reply with
  | error status => rfl
  | ok existing =>
      cases collectFiles request.roots with
      | error error => rfl
      | ok specs =>
          have unobserved := captureFilesObserved_snd
            (contextOf libraries tests keys nonces request existing) (totalsOf specs)
            request.chunker specs (.start next request.snapshotId)
          simp only [contextOf, BackupRun.start] at unobserved ⊢
          rw [← unobserved]
          split
          next failed => simp only [failed]
          next files run captured =>
            simp only [captured]
            cases flush _ run.pending run.session with
            | error error => rfl
            | ok session => rfl

end Run

/-- The chunk requests sent to a daemon, oldest first. -/
structure Wire where
  asked : List (List Bytes)
  uploaded : List (List Daemon.ChunkBlob)
deriving DecidableEq

def Wire.empty : Wire := ⟨[], []⟩

/-- The same daemon with a record of the chunk requests it got. -/
def BackupPeer.recording (peer : BackupPeer) : BackupPeer where
  State := peer.State × Wire
  listSnapshots state :=
    ((peer.listSnapshots state.1).1, (peer.listSnapshots state.1).2, state.2)
  hasChunks state ids :=
    ((peer.hasChunks state.1 ids).1, (peer.hasChunks state.1 ids).2,
      { state.2 with asked := state.2.asked ++ [ids] })
  uploadChunks state blobs :=
    ((peer.uploadChunks state.1 blobs).1, (peer.uploadChunks state.1 blobs).2,
      { state.2 with uploaded := state.2.uploaded ++ [blobs] })
  putManifest state request :=
    ((peer.putManifest state.1 request).1, (peer.putManifest state.1 request).2, state.2)

/-- A state of the daemon, with the requests recorded so far. -/
abbrev recordedIn {peer : BackupPeer} (state : peer.State) (wire : Wire) : peer.recording.State :=
  (state, wire)

section Recording

variable {Threshold : Type} (context : BackupContext Threshold) {peer : BackupPeer}

def Session.forget (session : Session peer.recording) : Session peer :=
  ⟨session.state.1, session.drawn, session.counters, session.report⟩

def BackupRun.forget (run : BackupRun peer.recording) : BackupRun peer :=
  ⟨run.session.forget, run.seen, run.pending, run.pendingBytes⟩

theorem sealMissing_forget (missing : List ChunkId) (pending : Pending)
    (session : Session peer.recording) :
    sealMissing context missing pending session.forget =
      (sealMissing context missing pending session).map (Prod.map id Session.forget) := by
  induction pending generalizing session with
  | nil => rfl
  | cons entry rest inductionHypothesis =>
      obtain ⟨id, data⟩ := entry
      simp only [sealMissing]
      split
      next =>
        simp only [Session.forget]
        cases encryptChunk context.libraries.aead context.keys.dataKey id
            (encodeChunk context.libraries.compressors context.tests data context.phase
              context.policy session.counters).1 (context.nonces session.drawn) with
        | error error => rfl
        | ok ciphertext =>
            have onward := inductionHypothesis { session with
              drawn := session.drawn + 1
              counters := (encodeChunk context.libraries.compressors context.tests data
                context.phase context.policy session.counters).2
              report := { session.report with
                uploadBytes := session.report.uploadBytes + UInt64.ofNat ciphertext.length
                chunksUploaded := session.report.chunksUploaded + 1 } }
            simp only [Session.forget] at onward ⊢
            rw [onward]
            cases sealMissing context missing rest _ with
            | error error => rfl
            | ok sealedRest => rfl
      next =>
        exact inductionHypothesis { session with
          report := { session.report with chunksDeduped := session.report.chunksDeduped + 1 } }

theorem upload_forget (blobs : List Daemon.ChunkBlob) (session : Session peer.recording) :
    upload blobs session.forget = (upload blobs session).map Session.forget := by
  unfold upload
  split
  next => rfl
  next =>
    cases answered : peer.uploadChunks session.state.1 blobs with
    | mk reply next =>
        have recorded : peer.recording.uploadChunks session.state blobs = (reply, next,
            { session.state.2 with uploaded := session.state.2.uploaded ++ [blobs] }) := by
          simp only [BackupPeer.recording, answered]
        have unrecorded : peer.uploadChunks session.forget.state blobs = (reply, next) := answered
        rw [recorded, unrecorded]
        cases reply with
        | error status => rfl
        | ok outcome =>
            simp only
            split
            next => rfl
            next => rfl

theorem flush_forget (pending : Pending) (session : Session peer.recording) :
    flush context pending session.forget = (flush context pending session).map Session.forget := by
  unfold flush
  split
  next => rfl
  next =>
    generalize (pending.map fun entry => entry.1.asBytes) = ids
    cases answered : peer.hasChunks session.state.1 ids with
    | mk reply next =>
        have recorded : peer.recording.hasChunks session.state ids = (reply, next,
            { session.state.2 with asked := session.state.2.asked ++ [ids] }) := by
          simp only [BackupPeer.recording, answered]
        have unrecorded : peer.hasChunks session.forget.state ids = (reply, next) := answered
        rw [recorded, unrecorded]
        cases reply with
        | error status => rfl
        | ok missingWire =>
            simp only
            cases parseMissing missingWire with
            | error error => rfl
            | ok missing =>
                have onward := sealMissing_forget context missing pending { session with
                  state := (next, { session.state.2 with asked := session.state.2.asked ++ [ids] })
                  }
                simp only [Session.forget] at onward ⊢
                rw [onward]
                cases sealMissing context missing pending _ with
                | error error => rfl
                | ok sealedPending => exact upload_forget sealedPending.1 sealedPending.2

theorem takeChunk_forget (run : BackupRun peer.recording) (data : Bytes) :
    takeChunk context run.forget data = (takeChunk context run data).map BackupRun.forget := by
  by_cases known : context.idOf data ∈ run.seen
  · rw [takeChunk_of_seen known, takeChunk_of_seen (show _ ∈ run.forget.seen from known)]
    rfl
  · by_cases full : Flushes context run data
    · rw [takeChunk_of_flushes full,
        takeChunk_of_flushes (show Flushes context run.forget data from full)]
      have onward := flush_forget context (run.pending ++ [(context.idOf data, data)])
        run.countedNew
      change Except.map _ (flush context (run.pending ++ _) run.countedNew.forget) = _
      rw [onward]
      cases flush context _ run.countedNew with
      | error error => rfl
      | ok flushed => rfl
    · rw [takeChunk_of_buffers known full,
        takeChunk_of_buffers (show _ ∉ run.forget.seen from known)
          (show ¬ Flushes context run.forget data from full)]
      rfl

variable (totals : BackupTotals)

theorem takeChunksObserved_forget (chunks : List Bytes) (run : BackupRun peer.recording) :
    takeChunksObserved context totals chunks run.forget =
      Prod.map id (Except.map BackupRun.forget) (takeChunksObserved context totals chunks run) := by
  induction chunks generalizing run with
  | nil => rfl
  | cons data rest inductionHypothesis =>
      simp only [takeChunksObserved, takeChunk_forget]
      cases takeChunk context run data with
      | error error => rfl
      | ok next =>
          simp only [Except.map, inductionHypothesis next]
          rfl

theorem captureFileObserved_forget (chunker : Bytes → Option (List Bytes)) (spec : FileSpec)
    (run : BackupRun peer.recording) :
    captureFileObserved context totals chunker spec run.forget =
      Prod.map id (Except.map (Prod.map id BackupRun.forget))
        (captureFileObserved context totals chunker spec run) := by
  unfold captureFileObserved
  cases chunker spec.file.content with
  | none => rfl
  | some chunks =>
      simp only [takeChunksObserved_forget]
      obtain ⟨observed, outcome⟩ := takeChunksObserved context totals chunks run
      cases outcome with
      | error error => rfl
      | ok next => rfl

theorem captureFilesObserved_forget (chunker : Bytes → Option (List Bytes))
    (specs : List FileSpec) (run : BackupRun peer.recording) :
    captureFilesObserved context totals chunker specs run.forget =
      Prod.map id (Except.map (Prod.map id BackupRun.forget))
        (captureFilesObserved context totals chunker specs run) := by
  induction specs generalizing run with
  | nil => rfl
  | cons spec rest inductionHypothesis =>
      simp only [captureFilesObserved, captureFileObserved_forget]
      obtain ⟨observed, outcome⟩ := captureFileObserved context totals chunker spec run
      cases outcome with
      | error error => rfl
      | ok captured =>
          obtain ⟨entry, next⟩ := captured
          simp only [Prod.map, Except.map, id, inductionHypothesis next]
          obtain ⟨more, remaining⟩ := captureFilesObserved context totals chunker rest next
          cases remaining with
          | error error => rfl
          | ok completed => rfl

theorem commitManifest_forget (manifest : Manifest) (session : Session peer.recording) :
    commitManifest context manifest session.forget =
      (commitManifest context manifest session).map (Prod.map id Prod.fst) := by
  unfold commitManifest
  cases manifest.encode with
  | error error => rfl
  | ok encoded =>
      simp only [Session.forget]
      cases encryptManifest context.libraries.aead context.keys.dataKey manifest.snapshotId encoded
          (context.nonces session.drawn) with
      | error error => rfl
      | ok blob =>
          simp only
          generalize (Daemon.PutManifestRequest.mk blob manifest.snapshotId.toBytes
            (manifest.chunkRefs.map ChunkId.asBytes)) = put
          cases answered : peer.putManifest session.state.1 put with
          | mk reply next =>
              have recorded : peer.recording.putManifest session.state put =
                  (reply, next, session.state.2) := by
                simp only [BackupPeer.recording, answered]
              rw [recorded]
              cases reply with
              | error status => rfl
              | ok _ => rfl

end Recording

/-- Recording the requests changes nothing in a backup. -/
theorem runBackupWithProgress_recording {Threshold : Type} (libraries : Libraries)
    (tests : LengthTests Threshold) (keys : KeyPair) (nonces : Nat → Nonce) (peer : BackupPeer)
    (state : peer.State) (wire : Wire) (request : BackupRequest Threshold) :
    runBackupWithProgress libraries tests keys nonces peer state request =
      Prod.map id (Except.map (Prod.map id Prod.fst))
        (runBackupWithProgress libraries tests keys nonces peer.recording (recordedIn state wire)
          request) := by
  unfold runBackupWithProgress
  cases answered : peer.listSnapshots state with
  | mk reply next =>
      have recorded : peer.recording.listSnapshots (recordedIn state wire) =
          (reply, next, wire) := by
        simp only [BackupPeer.recording, answered]
      rw [recorded]
      cases reply with
      | error status => rfl
      | ok existing =>
          simp only
          cases collectFiles request.roots with
          | error error => rfl
          | ok specs =>
              simp only
              have unrecorded := captureFilesObserved_forget
                (contextOf libraries tests keys nonces request existing) (totalsOf specs)
                request.chunker specs
                (.start (recordedIn next wire) request.snapshotId)
              change captureFilesObserved _ _ _ _ (BackupRun.start next request.snapshotId) = _
                at unrecorded
              rw [unrecorded]
              obtain ⟨observed, outcome⟩ := captureFilesObserved
                (contextOf libraries tests keys nonces request existing) (totalsOf specs)
                request.chunker specs
                (.start (recordedIn next wire) request.snapshotId)
              cases outcome with
              | error error => rfl
              | ok captured =>
                  obtain ⟨files, run⟩ := captured
                  have flushes := flush_forget
                    (contextOf libraries tests keys nonces request existing) run.pending run.session
                  simp only [Prod.map, Except.map, id]
                  change (match flush _ run.pending run.session.forget with
                    | .error error => _
                    | .ok session => _) = _
                  rw [flushes]
                  cases flush _ run.pending run.session with
                  | error error => rfl
                  | ok session =>
                      simp only [Except.map]
                      rw [commitManifest_forget]
                      rfl

/-- A backup that succeeds does so just the same with its requests
recorded. -/
theorem exists_recording {Threshold : Type} {libraries : Libraries}
    {tests : LengthTests Threshold} {keys : KeyPair} {nonces : Nat → Nonce} {peer : BackupPeer}
    {state final : peer.State} {request : BackupRequest Threshold}
    {observations : List Observation} {report : BackupReport}
    (succeeds : runBackupWithProgress libraries tests keys nonces peer state request =
      (observations, .ok (report, final))) (before : Wire) :
    ∃ wire, runBackupWithProgress libraries tests keys nonces peer.recording
      (recordedIn state before) request = (observations, .ok (report, final, wire)) := by
  have recorded := runBackupWithProgress_recording libraries tests keys nonces peer state before
    request
  rw [succeeds] at recorded
  cases run : runBackupWithProgress libraries tests keys nonces peer.recording
      (recordedIn state before) request with
  | mk seen outcome =>
      rw [run] at recorded
      cases outcome with
      | error error => cases recorded
      | ok result =>
          obtain ⟨returned, last, wire⟩ := result
          simp only [Prod.map, Except.map, id, Prod.mk.injEq, Except.ok.injEq] at recorded
          obtain ⟨rfl, rfl, rfl⟩ := recorded
          exact ⟨wire, rfl⟩

end Busyncr.Client
