import Busyncr.Client.Progress
import Busyncr.Client.RoundTrip
import Busyncr.Core.Expansion
import Busyncr.Store.Pruned
import Mathlib.Data.Finset.Max

/-!
Escalation and the first backup of a set.

Several clients, each with the keys of its own backup set, share one daemon.
A backup decides on its phase by the daemon's list of snapshots, which is one
list for all sets: escalation is off exactly until the first set has
completed a backup, and the first backups of all later sets run with it.
-/

namespace Busyncr.Client

open Std Store Transition

section Pipeline

variable {Threshold : Type} {context : BackupContext Threshold} {peer : BackupPeer}
  {Holds : peer.State → PolicyCounters → Prop}

/-- A property of the daemon's state and of the counters that survives every
request before the manifest and every chunk encoded. -/
structure Stable (context : BackupContext Threshold) (peer : BackupPeer)
    (Holds : peer.State → PolicyCounters → Prop) : Prop where
  asked : ∀ state counters ids, Holds state counters → Holds (peer.hasChunks state ids).2 counters
  uploaded : ∀ state counters blobs, Holds state counters →
    Holds (peer.uploadChunks state blobs).2 counters
  encoded : ∀ state counters data, Holds state counters →
    Holds state (encodeChunk context.libraries.compressors context.tests data context.phase
      context.policy counters).2

theorem sealMissing_keeps (stable : Stable context peer Holds) {missing : List ChunkId}
    {pending : Pending} {session next : Session peer} {blobs : List Daemon.ChunkBlob}
    (holds : Holds session.state session.counters)
    (sealed : sealMissing context missing pending session = .ok (blobs, next)) :
    Holds next.state next.counters := by
  induction pending generalizing session blobs with
  | nil =>
      cases sealed
      exact holds
  | cons entry rest inductionHypothesis =>
      obtain ⟨id, data⟩ := entry
      simp only [sealMissing] at sealed
      split at sealed
      next =>
        split at sealed
        next => cases sealed
        next =>
          split at sealed
          next => cases sealed
          next onward =>
            cases sealed
            exact inductionHypothesis (stable.encoded _ _ data holds) onward
      next =>
        refine inductionHypothesis ?_ sealed
        exact holds

theorem upload_keeps (stable : Stable context peer Holds) {blobs : List Daemon.ChunkBlob}
    {session next : Session peer} (holds : Holds session.state session.counters)
    (uploaded : upload blobs session = .ok next) : Holds next.state next.counters := by
  obtain ⟨rfl, rfl⟩ | ⟨outcome, state, replied, rfl⟩ := exists_reply_of_upload uploaded
  · exact holds
  · have kept := stable.uploaded _ _ blobs holds
    rwa [replied] at kept

theorem flush_keeps (stable : Stable context peer Holds) {pending : Pending}
    {session next : Session peer} (holds : Holds session.state session.counters)
    (flushed : flush context pending session = .ok next) : Holds next.state next.counters := by
  obtain ⟨rfl, rfl⟩ | ⟨missingWire, state, missing, blobs, sealedSession, replied, -, sealedOk,
    uploaded⟩ := exists_steps_of_flush flushed
  · exact holds
  · have kept := stable.asked _ _ (pending.map fun entry => entry.1.asBytes) holds
    rw [replied] at kept
    exact upload_keeps stable (sealMissing_keeps stable kept sealedOk) uploaded

theorem takeChunk_keeps (stable : Stable context peer Holds) {run next : BackupRun peer}
    {data : Bytes} (holds : Holds run.session.state run.session.counters)
    (taken : takeChunk context run data = .ok next) :
    Holds next.session.state next.session.counters := by
  unfold takeChunk at taken
  dsimp only at taken
  split at taken
  next =>
    cases taken
    exact holds
  next =>
    split at taken
    next =>
      split at taken
      next => cases taken
      next flushed =>
        cases taken
        refine flush_keeps stable ?_ flushed
        exact holds
    next =>
      cases taken
      exact holds

theorem takeChunks_keeps (stable : Stable context peer Holds) {chunks : List Bytes}
    {run next : BackupRun peer} (holds : Holds run.session.state run.session.counters)
    (taken : takeChunks context chunks run = .ok next) :
    Holds next.session.state next.session.counters := by
  induction chunks generalizing run with
  | nil =>
      cases taken
      exact holds
  | cons data rest inductionHypothesis =>
      simp only [takeChunks] at taken
      split at taken
      next => cases taken
      next first => exact inductionHypothesis (takeChunk_keeps stable holds first) taken

theorem captureFiles_keeps (stable : Stable context peer Holds)
    {chunker : Bytes → Option (List Bytes)} {specs : List FileSpec} {run final : BackupRun peer}
    {files : List FileEntry} (holds : Holds run.session.state run.session.counters)
    (captured : captureFiles context chunker specs run = .ok (files, final)) :
    Holds final.session.state final.session.counters := by
  induction specs generalizing run files with
  | nil =>
      cases captured
      exact holds
  | cons spec rest inductionHypothesis =>
      simp only [captureFiles] at captured
      split at captured
      next => cases captured
      next first =>
        split at captured
        next => cases captured
        next onward =>
          cases captured
          obtain ⟨chunks, taken, -, takenOk, -, rfl⟩ := exists_chunks_of_captureFile first
          have kept := takeChunks_keeps stable holds takenOk
          refine inductionHypothesis ?_ onward
          exact kept

/-- What holds when a backup starts holds of its report and of the state in
which it puts the manifest. -/
theorem runBackup_keeps {libraries : Libraries} {tests : LengthTests Threshold} {keys : KeyPair}
    {nonces : Nat → Nonce} {request : BackupRequest Threshold} {state next final : peer.State}
    {existing : List Bytes} {report : BackupReport}
    (listed : peer.listSnapshots state = (.ok existing, next))
    (stable : Stable (contextOf libraries tests keys nonces request existing) peer Holds)
    (holds : Holds next .zero)
    (succeeds : runBackup libraries tests keys nonces peer state request = .ok (report, final)) :
    ∃ reached blob, ∃ refs : List ChunkId, Holds reached report.compression ∧
      peer.putManifest reached
        ⟨blob, request.snapshotId.toBytes, refs.map ChunkId.asBytes⟩ = (.ok (), final) := by
  obtain ⟨found, _, replied, context, rfl, specs, files, run, session, -, captured, flushed,
    committed⟩ := exists_steps_of_runBackup succeeds
  obtain ⟨rfl, rfl⟩ : found = existing ∧ _ = next := by
    simpa using replied.symm.trans listed
  have reached := flush_keeps stable (captureFiles_keeps stable holds captured) flushed
  obtain ⟨_, sealedBlob, -, -, put, rfl⟩ := exists_sealed_of_commitManifest committed
  exact ⟨session.state, sealedBlob, _, reached, put⟩

end Pipeline

/-- Under these settings no chunk is tried at the higher level. -/
def BackupContext.Gated {Threshold : Type} (context : BackupContext Threshold) : Prop :=
  context.phase = .initialFull ∨ context.policy.escalate = false

theorem attempts_encodeChunk {Threshold : Type} {context : BackupContext Threshold}
    (gated : context.Gated) (data : Bytes) (counters : PolicyCounters) :
    (encodeChunk context.libraries.compressors context.tests data context.phase context.policy
      counters).2.escalationAttempts = counters.escalationAttempts := by
  have off : ∀ zstd3, escalates context.tests context.policy context.phase data zstd3 = false := by
    intro zstd3
    rcases gated with initial | off
    · simp [escalates, initial]
    · simp [escalates, off]
  simp only [encodeChunk, chooseCodec, off]
  split
  · rfl
  · split
    · rfl
    · split
      · rfl
      · split <;> rfl

section Shared

variable {Threshold : Type}

/-- One client's backup: how the daemon serves it, its set's keys, and what
it is asked for. -/
structure BackupCall (Threshold : Type) where
  serving : Serving
  keys : KeyPair
  nonces : Nat → Nonce
  request : BackupRequest Threshold

/-- A backup that returned its report. -/
structure CompletedBackup where
  keys : KeyPair
  report : BackupReport

/-- A daemon's store and the backups completed on it, oldest first. -/
structure SharedDaemon where
  disk : Disk
  completed : List CompletedBackup

def SharedDaemon.empty : SharedDaemon := ⟨.empty, []⟩

/-- The set has no completed snapshot yet. -/
def SharedDaemon.Unstarted (daemon : SharedDaemon) (keys : KeyPair) : Prop :=
  ∀ earlier ∈ daemon.completed, earlier.keys ≠ keys

inductive SharedEvent (Threshold : Type) where
  | backup (call : BackupCall Threshold)
  /-- Chunks of a backup that does not complete. -/
  | upload (serving : Serving) (blobs : List Daemon.ChunkBlob)
  | prune (nowMs : Int64) (policy : Retention.RetentionPolicy) (mode : PruneMode)
  | gc (nowMs : Int64) (grace : Duration)

/-- One step; `none` for a backup that does not complete. -/
def sharedStep (libraries : Libraries) (tests : LengthTests Threshold) (daemon : SharedDaemon) :
    SharedEvent Threshold → Option SharedDaemon
  | .backup call =>
      match runBackup libraries tests call.keys call.nonces
          (call.serving.backupPeer libraries.blake3) daemon.disk call.request with
      | .error _ => none
      | .ok (report, disk) => some ⟨disk, daemon.completed ++ [⟨call.keys, report⟩]⟩
  | .upload serving blobs =>
      some { daemon with
        disk := ((serving.backupPeer libraries.blake3).uploadChunks daemon.disk blobs).2 }
  | .prune nowMs policy mode =>
      some { daemon with disk.tables := (prune daemon.disk.tables nowMs policy mode).2 }
  | .gc nowMs grace =>
      let committed := Store.gc daemon.disk.tables nowMs grace
      some { daemon with
        disk := ⟨committed.tables,
          OrderedTable.eraseAll (committed.reclaimed.map Prod.fst) daemon.disk.objects⟩ }

variable {libraries : Libraries} {tests : LengthTests Threshold}

theorem snapshots_uploadChunks {blake3 : Blake3} {disk : Disk}
    {counted : Daemon.UploadChunksResponse} (blobs : List Daemon.ChunkBlob) :
    (Daemon.uploadChunks blake3 disk counted blobs).2.tables.snapshots =
      disk.tables.snapshots := by
  induction blobs generalizing disk counted with
  | nil => rfl
  | cons blob rest inductionHypothesis =>
      simp only [Daemon.uploadChunks]
      split
      next => rfl
      next id parsed =>
        have put : (putChunk blake3 disk id blob.data).2.tables.snapshots =
            disk.tables.snapshots := by
          unfold putChunk
          split <;> rfl
        split
        next next stored =>
          rw [stored] at put
          rw [inductionHypothesis, put]
        next next stored =>
          rw [stored] at put
          rw [inductionHypothesis, put]

theorem snapshots_handle {Value : Type} {serving : Serving} {disk : Disk}
    {handler : Except Daemon.Status Value × Disk}
    (same : handler.2.tables.snapshots = disk.tables.snapshots) :
    (serving.handle disk handler).2.tables.snapshots = disk.tables.snapshots := by
  unfold Serving.handle
  split
  next => rfl
  next => exact same

/-- No request before the manifest changes the snapshots, and a gated backup
counts no attempt. -/
theorem stable_backupPeer {context : BackupContext Threshold} {blake3 : Blake3}
    (serving : Serving) (start : Disk) :
    Stable context (serving.backupPeer blake3) fun disk counters =>
      disk.tables.snapshots = start.tables.snapshots ∧
        (context.Gated → counters.escalationAttempts = 0) := by
  constructor
  case asked =>
    rintro disk counters ids ⟨same, gate⟩
    refine ⟨Eq.trans ?_ same, gate⟩
    exact snapshots_handle rfl
  case uploaded =>
    rintro disk counters blobs ⟨same, gate⟩
    exact ⟨(snapshots_handle (snapshots_uploadChunks blobs)).trans same, gate⟩
  case encoded =>
    rintro disk counters data ⟨same, gate⟩
    refine ⟨same, fun gated => ?_⟩
    rw [attempts_encodeChunk gated]
    exact gate gated

/-- The greatest snapshot outlives every prune. -/
theorem listSnapshots_prune_ne_nil {tables : Tables} (nowMs : Int64)
    (policy : Retention.RetentionPolicy) (mode : PruneMode) (nonempty : listSnapshots tables ≠ []) :
    listSnapshots (prune tables nowMs policy mode).2 ≠ [] := by
  obtain ⟨greatest, listed, maximal⟩ := Finset.exists_max_image (listSnapshots tables).toFinset
    (fun id => id.value.toNat) (by simpa using nonempty)
  rw [List.mem_toFinset] at listed
  apply List.ne_nil_of_mem (a := greatest)
  rw [mem_listSnapshots_iff, (deleted_prune tables nowMs policy mode).mem_snapshots_iff]
  refine ⟨mem_listSnapshots_iff.mp listed, fun dropped => ?_⟩
  obtain ⟨greater, alsoListed, less, _⟩ :=
    exists_greater_of_mem_drop (listSnapshots_ascending tables) dropped
  have bounded := maximal greater (List.mem_toFinset.mpr alsoListed)
  rw [Ulid.lt_iff] at less
  omega

/-- A put manifest leaves a snapshot in the store. -/
theorem listSnapshots_putManifest_ne_nil {serving : Serving} {blake3 : Blake3} {disk final : Disk}
    {snapshot : Ulid} {blob : Bytes} {refs : List ChunkId}
    (put : (serving.backupPeer blake3).putManifest disk
      ⟨blob, snapshot.toBytes, refs.map ChunkId.asBytes⟩ = (.ok (), final)) :
    listSnapshots final.tables ≠ [] := by
  obtain ⟨-, answered⟩ := handle_ok put
  split at answered
  next => cases answered
  next tables stored =>
    cases answered
    unfold Daemon.putManifest at stored
    split at stored
    next => cases stored
    next committed done =>
      obtain ⟨_, chunks, _, inserted⟩ := putSnapshotAs_ok (storeManifest_ok done)
      have live : listSnapshots committed ≠ [] := by
        apply List.ne_nil_of_mem (a := snapshot)
        rw [mem_listSnapshots_iff, inserted]
        simp
      cases stored
      dsimp only
      split
      next => exact listSnapshots_prune_ne_nil _ _ _ live
      next => exact live

/-- A completed backup leaves a snapshot, and tries the higher level only if
the daemon listed one before it and its policy escalates. -/
theorem runBackup_attempts {serving : Serving} {keys : KeyPair} {nonces : Nat → Nonce}
    {request : BackupRequest Threshold} {disk final : Disk} {report : BackupReport}
    (succeeds : runBackup libraries tests keys nonces (serving.backupPeer libraries.blake3) disk
      request = .ok (report, final)) :
    listSnapshots final.tables ≠ [] ∧
      (listSnapshots disk.tables = [] ∨ request.compression.escalate = false →
        report.compression.escalationAttempts = 0) := by
  obtain ⟨existing, next, listed, -⟩ := exists_steps_of_runBackup succeeds
  obtain ⟨-, answered⟩ := handle_ok listed
  cases answered
  obtain ⟨reached, blob, refs, ⟨-, gate⟩, put⟩ :=
    runBackup_keeps listed (stable_backupPeer serving disk) ⟨rfl, fun _ => rfl⟩ succeeds
  refine ⟨listSnapshots_putManifest_ne_nil put, fun condition => gate ?_⟩
  rcases condition with first | off
  · exact .inl (by simp [contextOf, first])
  · exact .inr off

/-- What one step does to the list of snapshots and to the history. -/
theorem sharedStep_cases {daemon next : SharedDaemon} {event : SharedEvent Threshold}
    (stepped : sharedStep libraries tests daemon event = some next) :
    (∃ call report, event = .backup call ∧
      next.completed = daemon.completed ++ [⟨call.keys, report⟩] ∧
      listSnapshots next.disk.tables ≠ [] ∧
      (listSnapshots daemon.disk.tables = [] ∨ call.request.compression.escalate = false →
        report.compression.escalationAttempts = 0)) ∨
    next.completed = daemon.completed ∧
      (listSnapshots next.disk.tables = [] ↔ listSnapshots daemon.disk.tables = []) := by
  cases event with
  | backup call =>
      simp only [sharedStep] at stepped
      split at stepped
      next => cases stepped
      next report disk succeeds =>
        cases stepped
        exact .inl ⟨call, report, rfl, rfl, runBackup_attempts succeeds⟩
  | upload serving blobs =>
      cases stepped
      refine .inr ⟨rfl, ?_⟩
      have same : ((serving.backupPeer libraries.blake3).uploadChunks daemon.disk
          blobs).2.tables.snapshots = daemon.disk.tables.snapshots :=
        snapshots_handle (snapshots_uploadChunks blobs)
      rw [listSnapshots, same, listSnapshots]
  | prune nowMs policy mode =>
      cases stepped
      refine .inr ⟨rfl, ?_, ?_⟩
      · intro emptied
        by_contra nonempty
        exact listSnapshots_prune_ne_nil nowMs policy mode nonempty emptied
      · intro empty
        rw [List.eq_nil_iff_forall_not_mem] at empty ⊢
        intro snapshot listed
        rw [mem_listSnapshots_iff,
          (deleted_prune daemon.disk.tables nowMs policy mode).mem_snapshots_iff] at listed
        exact empty snapshot (mem_listSnapshots_iff.mpr listed.1)
  | gc nowMs grace =>
      cases stepped
      exact .inr ⟨rfl, Iff.rfl⟩

/-- The daemon lists no snapshot exactly while no set has completed a
backup. -/
theorem listSnapshots_eq_nil_iff {events : List (SharedEvent Threshold)} {final : SharedDaemon}
    (executed : run (sharedStep libraries tests) .empty events = some final) :
    listSnapshots final.disk.tables = [] ↔ final.completed = [] := by
  refine run_induction (fun _ daemon =>
    listSnapshots daemon.disk.tables = [] ↔ daemon.completed = []) ?_ ?_ executed
  · simp [SharedDaemon.empty, Disk.empty, Tables.empty, listSnapshots]
  · intro reached daemon event next _ earlier stepped
    obtain ⟨call, report, _, grown, live, _⟩ | ⟨same, listing⟩ := sharedStep_cases stepped
    · simp [grown, live]
    · rw [listing, earlier, same]

/-- Of a history with one more backup, a place is a place of the history
before it, or the new backup is at its end. -/
theorem split_of_concat {completed before after : List CompletedBackup}
    {added backup : CompletedBackup}
    (split : completed ++ [added] = before ++ backup :: after) :
    (before = completed ∧ backup = added) ∨
      ∃ between, completed = before ++ backup :: between := by
  rcases List.eq_nil_or_concat after with rfl | ⟨between, last, rfl⟩
  · obtain ⟨same, isAdded⟩ := List.append_inj' split rfl
    exact .inl ⟨same.symm, (List.singleton_inj.mp isAdded).symm⟩
  · rw [List.concat_eq_append, ← List.cons_append, ← List.append_assoc] at split
    exact .inr ⟨between, (List.append_inj' split rfl).1⟩

/-- In every history in which the first backup of a set comes before those of
all other sets, or its policy has escalation off, it never tries the higher
level. -/
theorem first_backups_never_escalate {events : List (SharedEvent Threshold)}
    {final : SharedDaemon} (executed : run (sharedStep libraries tests) .empty events = some final)
    (gated : ∀ visit ∈ visits (sharedStep libraries tests) .empty events, ∀ call,
      visit.event = .backup call → visit.before.Unstarted call.keys →
        visit.before.completed = [] ∨ call.request.compression.escalate = false) :
    ∀ before backup after, final.completed = before ++ backup :: after →
      (∀ earlier ∈ before, earlier.keys ≠ backup.keys) →
        backup.report.compression.escalationAttempts = 0 := by
  revert gated
  refine run_induction (fun reached daemon =>
    (∀ visit ∈ visits (sharedStep libraries tests) .empty reached, ∀ call,
      visit.event = .backup call → visit.before.Unstarted call.keys →
        visit.before.completed = [] ∨ call.request.compression.escalate = false) →
    ∀ before backup after, daemon.completed = before ++ backup :: after →
      (∀ earlier ∈ before, earlier.keys ≠ backup.keys) →
        backup.report.compression.escalationAttempts = 0) ?_ ?_ executed
  · intro _ before backup after split
    simp [SharedDaemon.empty] at split
  · intro reached daemon event next executedSoFar earlier stepped gated before backup after split
      first
    rw [visits_concat executedSoFar stepped, List.forall_mem_append] at gated
    obtain ⟨gatedSoFar, gatedNow⟩ := gated
    obtain ⟨call, report, rfl, grown, _, attempts⟩ | ⟨same, _⟩ := sharedStep_cases stepped
    · rw [grown] at split
      obtain ⟨rfl, rfl⟩ | ⟨between, split⟩ := split_of_concat split
      · apply attempts
        rw [listSnapshots_eq_nil_iff executedSoFar]
        exact gatedNow _ (List.mem_singleton_self _) call rfl first
      · exact earlier gatedSoFar before backup between split first
    · rw [same] at split
      exact earlier gatedSoFar before backup after split first

end Shared

section Sample

/-- The keys of a second backup set, and the chunk of its folder under them. -/
def otherKeys : KeyPair := ⟨⟨.replicate 32 4⟩, ⟨.replicate 32 5⟩⟩

def otherChunk : ChunkId :=
  ⟨#v[0x00, 0xad, 0x5d, 0xb2, 0x56, 0x0d, 0xd0, 0xf6, 0xe9, 0xee, 0x0a, 0x5d,
      0x03, 0x87, 0x41, 0x2b, 0xca, 0x33, 0x2f, 0x02, 0x96, 0xa9, 0x80, 0xfc,
      0xf4, 0x4d, 0x73, 0xb3, 0xc3, 0x45, 0x4c, 0xf2]⟩

/-- What XChaCha20-Poly1305 makes of the first set's manifest of an empty
folder, and of the second set's chunk and manifest. -/
def sharedRecords : List AeadRecord :=
  [{ key := sampleKeys.dataKey
     sealing := ⟨(Ulid.fromParts 1 0).toBytes,
       (Manifest.encode ⟨.fromParts 1 0, 5, []⟩).toOption.getD [], .replicate 24 2⟩
     ciphertext := [0xcc, 0x66, 0x36, 0xef, 0xaa, 0x76, 0xfc, 0x4d, 0xa0, 0x61, 0x61, 0x91,
        0x72, 0x50, 0x79, 0x9e, 0xc8, 0xd5, 0xf1, 0xa8, 0x35, 0xe6, 0x2b, 0x17,
        0x40, 0x67, 0xbc, 0x6e, 0x4b, 0x5d, 0xaa, 0xb5, 0x0e, 0xe1, 0x74, 0x3f,
        0x0a, 0x0b, 0x84, 0x37, 0x77, 0x9e, 0x71, 0x43] },
   { key := otherKeys.dataKey
     sealing := ⟨otherChunk.asBytes, frame .zstd (rawBlockFrame [7]), .replicate 24 2⟩
     ciphertext := [0x3e, 0x9a, 0x7f, 0x3a, 0xc0, 0x60, 0xa3, 0x33, 0xc7, 0x54, 0x75, 0x9f,
        0xa2, 0xfd, 0xdf, 0x7b, 0x59, 0x1b, 0x0a, 0xe0, 0xb8, 0xfb, 0x7c, 0x22,
        0x2c, 0x81, 0x37] },
   { key := otherKeys.dataKey
     sealing := ⟨(Ulid.fromParts 2 0).toBytes,
       (Manifest.encode ⟨.fromParts 2 0, 6,
         [⟨"d/f", 1, -1, 5, 33188, [otherChunk]⟩]⟩).toOption.getD [], .replicate 24 3⟩
     ciphertext := [0x7a, 0xc9, 0x8f, 0xac, 0xd0, 0x95, 0xf6, 0x8a, 0xab, 0x6e, 0x28, 0xc0,
        0xef, 0x16, 0x92, 0x41, 0x35, 0x1d, 0x04, 0x65, 0xb6, 0x3c, 0x76, 0x2b,
        0xcf, 0x79, 0x98, 0x99, 0x36, 0x6e, 0xc3, 0x6d, 0x9b, 0x99, 0xa9, 0x78,
        0xfc, 0x94, 0x55, 0xbf, 0x43, 0xa0, 0x01, 0x48, 0x14, 0x4b, 0x9a, 0x73,
        0xaf, 0x62, 0x8e, 0x2b, 0x2e, 0xdd, 0xcf, 0x15, 0x55, 0xfd, 0xe3, 0x62,
        0x0a, 0xea, 0x62, 0x4e, 0xd7, 0xa7, 0xaa, 0x98, 0xa4, 0xdf, 0x5f, 0xaf,
        0x06, 0xc1, 0x26, 0x65, 0xd7, 0xd6, 0xf3, 0xf8, 0xd4, 0x1d, 0x6f, 0x5f,
        0x59, 0x13, 0x90, 0x82, 0x04, 0xde, 0xcd, 0x6c, 0x21, 0xf1, 0x4d, 0x01,
        0x44, 0x02, 0x3c, 0xb9, 0xa5, 0x8e, 0x1a, 0x49, 0x36, 0xa8, 0xa6, 0x23,
        0x4d, 0xec, 0x00] }]

/-- BLAKE3 of the chunk under the second set's key, and of its sealed blob. -/
def sharedLibraries : Libraries where
  blake3 :=
    { hash := fun _ =>
        #v[0xf7, 0xf0, 0x11, 0xfd, 0x47, 0x78, 0x9b, 0xf9, 0x89, 0xff, 0xef, 0x33,
            0x47, 0x7b, 0xe6, 0x0f, 0xfc, 0xde, 0xe5, 0x94, 0x1a, 0x61, 0x85, 0x5b,
            0x87, 0x8f, 0x09, 0x95, 0xe9, 0xbb, 0x61, 0x68]
      keyedHash := fun _ _ => otherChunk.raw }
  aead := .ofRecords sharedRecords
  compressors := storingCompressors

def sharedRegistry : Daemon.Registry :=
  Daemon.enrollClient (Daemon.enrollClient ∅ "laptop" "a1") "desktop" "b2"

/-- The first client backs up an empty folder. -/
def laptopBackup : BackupCall ExactThreshold where
  serving := ⟨some sharedRegistry, some "a1", true, 10⟩
  keys := sampleKeys
  nonces := sampleNonces
  request :=
    { roots := [sampleRoot folderE []]
      chunker := sampleRequest.chunker
      compression := ⟨false, true, 3, 9, .rational 16, .rational 0, .rational 0⟩
      snapshotId := .fromParts 1 0
      createdAt := 5 }

/-- The second client backs up a folder of its own under its own keys, for the
first time. -/
def desktopBackup (escalate : Bool) : BackupCall ExactThreshold where
  serving := ⟨some sharedRegistry, some "b2", true, 10⟩
  keys := otherKeys
  nonces := sampleNonces
  request :=
    { roots := [sampleRoot folderD [(fileF, .file earlyFile)]]
      chunker := sampleRequest.chunker
      compression := ⟨false, escalate, 3, 9, .rational 16, .rational 0, .rational 0⟩
      snapshotId := .fromParts 2 0
      createdAt := 6 }

def sharedHistory (escalate : Bool) : List (SharedEvent ExactThreshold) :=
  [.backup laptopBackup, .backup (desktopBackup escalate)]

/-- The data key of every completed backup, and what it tried. -/
def SharedDaemon.attempts (daemon : SharedDaemon) : List (DataKey × UInt64) :=
  daemon.completed.map fun backup =>
    (backup.keys.dataKey, backup.report.compression.escalationAttempts)

theorem completed_of_attempts {daemon : SharedDaemon} {firstKey secondKey : DataKey}
    {firstCount secondCount : UInt64} (different : firstKey ≠ secondKey)
    (shown : daemon.attempts = [(firstKey, firstCount), (secondKey, secondCount)]) :
    ∃ first second, daemon.completed = [first, second] ∧ first.keys ≠ second.keys ∧
      second.report.compression.escalationAttempts = secondCount := by
  rcases held : daemon.completed with _ | ⟨first, _ | ⟨second, _ | ⟨third, rest⟩⟩⟩ <;>
    simp only [SharedDaemon.attempts, held, List.map_nil, List.map_cons, List.cons.injEq,
      Prod.mk.injEq, reduceCtorEq, and_false] at shown
  obtain ⟨⟨rfl, -⟩, ⟨rfl, rfl⟩, -⟩ := shown
  refine ⟨first, second, rfl, fun same => ?_, rfl⟩
  exact different (congrArg KeyPair.dataKey same)

theorem second_set_without_escalation_attempts_nothing :
    ∃ final first second,
      run (sharedStep sharedLibraries exactTests) .empty (sharedHistory false) = some final ∧
      final.completed = [first, second] ∧ first.keys ≠ second.keys ∧
      second.report.compression.escalationAttempts = 0 := by
  have checked : ∃ final,
      run (sharedStep sharedLibraries exactTests) .empty (sharedHistory false) = some final ∧
        final.attempts = [(sampleKeys.dataKey, 0), (otherKeys.dataKey, 0)] :=
    exists_final_of_any (by decide +kernel)
  obtain ⟨final, executed, shown⟩ := checked
  obtain ⟨first, second, held, different, -⟩ := completed_of_attempts (by decide) shown
  refine ⟨final, first, second, executed, held, different, ?_⟩
  refine first_backups_never_escalate executed ?_ [first] second [] held (by simpa using different)
  obtain ⟨middle, stepped, onward⟩ := run_cons_eq_some executed
  rw [sharedHistory, visits_cons stepped, List.forall_mem_cons]
  refine ⟨fun _ _ _ => .inl rfl, ?_⟩
  intro visit visited call isBackup _
  have listed := visit_event_mem visited
  rw [isBackup, List.mem_singleton] at listed
  cases listed
  exact .inr rfl

/-- The first backup of the second set finds the first set's snapshot listed,
and escalates. -/
theorem second_set_escalates_in_its_first_backup :
    ∃ final first second,
      run (sharedStep sharedLibraries exactTests) .empty (sharedHistory true) = some final ∧
      final.completed = [first, second] ∧ first.keys ≠ second.keys ∧
      second.report.compression.escalationAttempts = 1 := by
  have checked : ∃ final,
      run (sharedStep sharedLibraries exactTests) .empty (sharedHistory true) = some final ∧
        final.attempts = [(sampleKeys.dataKey, 0), (otherKeys.dataKey, 1)] :=
    exists_final_of_any (by decide +kernel)
  obtain ⟨final, executed, shown⟩ := checked
  obtain ⟨first, second, held, different, count⟩ := completed_of_attempts (by decide) shown
  exact ⟨final, first, second, executed, held, different, count⟩

end Sample

end Busyncr.Client
