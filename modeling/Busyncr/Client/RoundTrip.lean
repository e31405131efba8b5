import Busyncr.Client.BackupStore
import Busyncr.Client.RestoreSoundness

/-!
Backup then restore is the identity on file trees.

The two pipelines meet at `Stored`: a finished backup leaves its snapshot
stored, and a restore of a stored snapshot succeeds, file by file, because
the paths of the backup are apart from each other.
-/

namespace Busyncr.Client

open Std Store

/-- Local file operations succeed. -/
structure FileSystem.Succeeds (fs : FileSystem) : Prop where
  permits : ∀ op path, fs.permits op path = true
  stores : ∀ tree, fs.stores tree = true

section Operations

variable {fs : FileSystem} {tree : Tree} {path : List String}

theorem updateFile_complete (succeeds : fs.Succeeds) (op : FileOp)
    (change : RestoredFile → RestoredFile) {file : RestoredFile}
    (found : tree[path]? = some (.file file)) :
    updateFile fs op tree path change = .ok (tree.insert path (.file (change file))) := by
  simp [updateFile, succeeds.permits, succeeds.stores, found]

/-- Directories can be made where no file is in the way; what is new are
directories on the way. -/
theorem createDirs_complete {above names : List String}
    (clear : ∀ place, above <+: place → place <+: above ++ names → ∀ file : RestoredFile,
      tree[place]? ≠ some (.file file)) :
    ∃ next, createDirs tree above names = some next ∧
      ∀ (place : List String) (node : Node), next[place]? = some node →
        tree[place]? = some node ∨ node = .dir ∧ place <+: above ++ names := by
  induction names generalizing tree above with
  | nil => exact ⟨tree, rfl, fun _ _ found => .inl found⟩
  | cons name rest inductionHypothesis =>
      have joined : above ++ [name] ++ rest = above ++ name :: rest := by simp
      have onward : above <+: above ++ [name] := List.prefix_append _ _
      simp only [createDirs]
      split
      next file found =>
        refine absurd found (clear _ onward ?_ file)
        rw [← joined]
        exact List.prefix_append _ _
      next =>
        rw [← joined] at clear ⊢
        exact inductionHypothesis fun place below => clear place (onward.trans below)
      next fresh =>
        rw [← joined] at clear ⊢
        have clearNext : ∀ place, above ++ [name] <+: place → place <+: above ++ [name] ++ rest →
            ∀ file : RestoredFile,
              (tree.insert (above ++ [name]) Node.dir)[place]? ≠ some (.file file) := by
          intro place below within file found
          rw [OrderedTable.getElem?_insert_eq] at found
          split at found
          next => cases found
          next => exact clear place (onward.trans below) within file found
        obtain ⟨next, made, origin⟩ := inductionHypothesis clearNext
        refine ⟨next, made, fun place node found => ?_⟩
        rcases origin place node found with before | isDir
        · rw [OrderedTable.getElem?_insert_eq] at before
          split at before
          next same =>
            cases before
            exact .inr ⟨rfl, same ▸ List.prefix_append _ _⟩
          next => exact .inl before
        · exact .inr isDir

theorem createDirAll_complete (succeeds : fs.Succeeds)
    (clear : ∀ place, place <+: path → ∀ file : RestoredFile, tree[place]? ≠ some (.file file)) :
    ∃ next, createDirAll fs tree path = .ok next ∧
      ∀ (place : List String) (node : Node), next[place]? = some node →
        tree[place]? = some node ∨ node = .dir ∧ place <+: path := by
  have clearAll : ∀ place, [] <+: place → place <+: [] ++ path → ∀ file : RestoredFile,
      tree[place]? ≠ some (.file file) := fun place _ within => clear place within
  obtain ⟨next, made, origin⟩ := createDirs_complete clearAll
  refine ⟨next, ?_, origin⟩
  simp [createDirAll, succeeds.permits, made]

theorem finishFile_complete (succeeds : fs.Succeeds) (entry : FileEntry) {file : RestoredFile}
    (found : tree[path]? = some (.file file)) :
    ∃ next, finishFile fs tree path entry = .ok next := by
  have syncedFound : (tree.insert path (.file file))[path]? = some (.file file) := by simp
  have timedFound : ((tree.insert path (.file file)).insert path (.file
      { file with mtime := some (entry.mtimeSecs, entry.mtimeNanos) }))[path]? =
        some (.file { file with mtime := some (entry.mtimeSecs, entry.mtimeNanos) }) := by
    simp
  rw [finishFile, syncAll, updateFile_complete succeeds .sync id found]
  simp only [id]
  rw [setFileMtime, updateFile_complete succeeds .setMtime _ syncedFound]
  simp only
  rw [setMode, updateFile_complete succeeds .setMode _ timedFound]
  exact ⟨_, rfl⟩

end Operations

section Chunks

variable {fs : FileSystem} {libraries : Libraries} {keys : KeyPair}

/-- A blob sealed from a plaintext passes the restore's checks. -/
theorem verifyChunk_of_sealedFrom (aeadInverts : libraries.aead.Inverts)
    (zstdInverts : libraries.compressors.Inverts) {plaintext blob : Bytes}
    (sealedFrom : SealedFrom libraries keys plaintext blob) :
    verifyChunk libraries keys (idOf libraries keys plaintext)
      ⟨(idOf libraries keys plaintext).asBytes, blob⟩ = .ok plaintext := by
  obtain ⟨chosen, nonce, represents, encrypted⟩ := sealedFrom
  have opened : decryptChunk libraries.aead keys.dataKey (idOf libraries keys plaintext) blob =
      .ok (frame chosen.1 chosen.2) := openBlob_of_sealBlob aeadInverts encrypted
  have parsed : parseChunkId (idOf libraries keys plaintext).asBytes =
      .ok (idOf libraries keys plaintext) := by
    simp [parseChunkId]
  simp [verifyChunk, parsed, opened, represents.decode_frame zstdInverts]

/-- A streamed message that carries the plaintext. -/
def Delivers (libraries : Libraries) (keys : KeyPair) (plaintext : Bytes)
    (message : Except Daemon.Status Daemon.ChunkBlob) : Prop :=
  ∃ blob, message = .ok ⟨(idOf libraries keys plaintext).asBytes, blob⟩ ∧
    SealedFrom libraries keys plaintext blob

theorem chunkStream_of_holds {disk : Disk} {plaintexts : List Bytes}
    (holds : ∀ plaintext ∈ plaintexts, Holds libraries keys disk plaintext) :
    List.Forall₂ (Delivers libraries keys) plaintexts
      (Daemon.chunkStream libraries.blake3 disk (plaintexts.map (idOf libraries keys))) := by
  induction plaintexts with
  | nil => exact .nil
  | cons plaintext rest inductionHypothesis =>
      obtain ⟨⟨blob, sealedFrom, read⟩, restHolds⟩ := List.forall_mem_cons.mp holds
      rw [List.map_cons, Daemon.chunkStream, read]
      exact .cons ⟨blob, rfl, sealedFrom⟩ (inductionHypothesis restHolds)

theorem append_complete (succeeds : fs.Succeeds) {writing : Writing} {path : List String}
    {file : RestoredFile} (plaintext : Bytes)
    (found : writing.tree[path]? = some (.file file)) :
    ∃ next, writing.append fs path plaintext = .ok next ∧
      Placed writing.tree path { file with content := file.content ++ plaintext } next.tree ∧
      next.written = writing.written + UInt64.ofNat plaintext.length := by
  rw [Writing.append, writeAll, updateFile_complete succeeds .write _ found]
  exact ⟨_, rfl, placed_insert _ _ _, rfl⟩

/-- The stream of a file's chunks writes the file. -/
theorem receiveChunks_complete (succeeds : fs.Succeeds) (aeadInverts : libraries.aead.Inverts)
    (zstdInverts : libraries.compressors.Inverts) {path : List String} {plaintexts : List Bytes}
    {stream : List (Except Daemon.Status Daemon.ChunkBlob)} {writing : Writing}
    {file : RestoredFile} (delivers : List.Forall₂ (Delivers libraries keys) plaintexts stream)
    (found : writing.tree[path]? = some (.file file)) :
    ∃ result, receiveChunks fs libraries keys path (plaintexts.map (idOf libraries keys)) stream
        writing = .ok result ∧
      Placed writing.tree path { file with content := file.content ++ plaintexts.flatten }
        result.tree ∧
      result.written = writing.written + UInt64.ofNat plaintexts.flatten.length := by
  induction delivers generalizing writing file with
  | nil => exact ⟨writing, rfl, ⟨by simpa using found, fun _ _ => rfl⟩, by simp⟩
  | cons head _ inductionHypothesis =>
      obtain ⟨blob, rfl, sealedFrom⟩ := head
      have accepted := verifyChunk_of_sealedFrom aeadInverts zstdInverts sealedFrom
      obtain ⟨next, appended, placed, counted⟩ := append_complete succeeds _ found
      obtain ⟨result, received, placedRest, countedRest⟩ := inductionHypothesis placed.here
      refine ⟨result, ?_, by simpa using placed.trans placedRest, ?_⟩
      · rw [List.map_cons, receiveChunks, accepted]
        simp only
        rw [appended]
        exact received
      · rw [countedRest, counted, List.flatten_cons, List.length_append, UInt64.ofNat_add,
          UInt64.add_assoc]

end Chunks

section Files

/-- The file a restore makes of a captured one: its bytes, its time stamp
(the epoch where the platform had none) and its mode. -/
def restoredOf (spec : FileSpec) : RestoredFile where
  content := spec.file.content
  mtime := some ((spec.file.modified.map fun time => (time.secs, time.nanos)).getD (0, 0))
  mode := some spec.file.mode

theorem mtimeParts_eq (modified : Option SystemTime) :
    mtimeParts modified = (modified.map fun time => (time.secs, time.nanos)).getD (0, 0) := by
  cases modified with
  | none => rfl
  | some time => rw [mtimeParts_some, Option.map_some, Option.getD_some]

/-- The tree holds the files of the list, and every node is on the way to one
of them. -/
structure Rebuilt (tree : Tree) (specs : List FileSpec) : Prop where
  each : ∀ spec ∈ specs, tree[splitPath spec.rel]? = some (.file (restoredOf spec))
  only : ∀ (place : List String) (node : Node), tree[place]? = some node →
    ∃ spec ∈ specs, place <+: splitPath spec.rel ∧ (node = .dir ∨ place = splitPath spec.rel)

theorem rebuilt_empty : Rebuilt ∅ [] := ⟨by simp, by simp⟩

variable {fs : FileSystem} {libraries : Libraries} {keys : KeyPair} {tree : Tree}
  {specs : List FileSpec} {spec : FileSpec}

theorem Rebuilt.not_file_above (rebuilt : Rebuilt tree specs)
    (apart : ∀ other ∈ specs, Apart other spec) {place : List String}
    (above : place <+: splitPath spec.rel) (file : RestoredFile) :
    tree[place]? ≠ some (.file file) := by
  intro found
  obtain ⟨other, listed, _, isDir | isFile⟩ := rebuilt.only place _ found
  · cases isDir
  · exact (apart other listed).1 (isFile ▸ above)

theorem Rebuilt.not_dir (rebuilt : Rebuilt tree specs)
    (apart : ∀ other ∈ specs, Apart other spec) :
    tree[splitPath spec.rel]? ≠ some .dir := by
  intro found
  obtain ⟨other, listed, above, _⟩ := rebuilt.only _ _ found
  exact (apart other listed).2 above

/-- The output of a file apart from the earlier ones can be opened. -/
theorem openOutput_complete (succeeds : fs.Succeeds) {entry : FileEntry}
    (rebuilt : Rebuilt tree specs) (apart : ∀ other ∈ specs, Apart other spec)
    (sanitized : sanitizePath entry.path = .ok (splitPath spec.rel)) :
    ∃ created, openOutput fs tree entry = .ok (splitPath spec.rel, created) ∧
      created[splitPath spec.rel]? = some (.file ⟨[], none, none⟩) ∧
      ∀ (place : List String) (node : Node), place ≠ splitPath spec.rel →
        (tree[place]? = some node → created[place]? = some node) ∧
        (created[place]? = some node → tree[place]? = some node ∨
          node = .dir ∧ place <+: splitPath spec.rel) := by
  have parent : (splitPath spec.rel).dropLast <+: splitPath spec.rel := List.dropLast_prefix _
  have clear : ∀ place, place <+: (splitPath spec.rel).dropLast → ∀ file : RestoredFile,
      tree[place]? ≠ some (.file file) := fun place within =>
    rebuilt.not_file_above apart (within.trans parent)
  obtain ⟨parents, made, origin⟩ := createDirAll_complete succeeds clear
  have notDir : parents[splitPath spec.rel]? ≠ some .dir := by
    intro found
    rcases origin _ _ found with before | ⟨_, within⟩
    · exact rebuilt.not_dir apart before
    · have nonempty : splitPath spec.rel ≠ [] := by simp [splitPath]
      have shorter := within.length_le
      rw [List.length_dropLast] at shorter
      have positive := List.length_pos_iff.mpr nonempty
      omega
  have createdOk : createFile fs parents (splitPath spec.rel) =
      .ok (parents.insert (splitPath spec.rel) (.file ⟨[], none, none⟩)) := by
    rw [createFile, if_pos (succeeds.permits _ _)]
    split
    next found => exact absurd found notDir
    next => rfl
  have placed := placed_insert parents (splitPath spec.rel) ⟨[], none, none⟩
  refine ⟨_, ?_, placed.here, fun place node different => ?_⟩
  · simp only [openOutput, sanitized, made, createdOk]
  · rw [placed.elsewhere place different]
    refine ⟨(createDirs_ok (createDirAll_ok made)).1 place node, fun found => ?_⟩
    exact (origin place node found).imp_right (And.imp_right fun within => within.trans parent)

variable {serving : Serving} {disk : Disk}

theorem fetchChunks_complete (succeeds : fs.Succeeds) (aeadInverts : libraries.aead.Inverts)
    (zstdInverts : libraries.compressors.Inverts)
    (admitted : Daemon.authenticate serving.auth serving.fingerprint = .ok ())
    {path : List String} {entry : FileEntry} {plaintexts : List Bytes} {writing : Writing}
    {file : RestoredFile} (named : entry.chunks = plaintexts.map (idOf libraries keys))
    (holds : ∀ plaintext ∈ plaintexts, Holds libraries keys disk plaintext)
    (found : writing.tree[path]? = some (.file file)) :
    ∃ result, fetchChunks fs libraries keys (serving.restorePeer libraries.blake3) disk path entry
        writing = .ok (result, disk) ∧
      Placed writing.tree path { file with content := file.content ++ plaintexts.flatten }
        result.tree ∧
      result.written = writing.written + UInt64.ofNat plaintexts.flatten.length := by
  obtain ⟨result, received, placed, counted⟩ := receiveChunks_complete succeeds aeadInverts
    zstdInverts (chunkStream_of_holds holds) found
  refine ⟨result, ?_, placed, counted⟩
  unfold fetchChunks
  split
  next none =>
    rw [← named, none] at received
    cases received
    rfl
  next =>
    have answered : (serving.restorePeer libraries.blake3).getChunks disk
        (entry.chunks.map ChunkId.asBytes) =
          (.ok (Daemon.chunkStream libraries.blake3 disk entry.chunks), disk) := by
      simp only [Serving.restorePeer, Serving.handle, admitted, Daemon.getChunks,
        Daemon.parseChunkIds_asBytes]
    rw [answered]
    simp only
    rw [named, received]

/-- A captured file whose chunks the daemon holds is restored beside the
earlier ones. -/
theorem restoreFile_complete (succeeds : fs.Succeeds) (aeadInverts : libraries.aead.Inverts)
    (zstdInverts : libraries.compressors.Inverts)
    (admitted : Daemon.authenticate serving.auth serving.fingerprint = .ok ())
    {entry : FileEntry} {chunks : List Bytes} (report : RestoreReport)
    (rebuilt : Rebuilt tree specs) (apart : ∀ other ∈ specs, Apart other spec)
    (sanitized : sanitizePath spec.rel = .ok (splitPath spec.rel))
    (captured : Captured libraries keys spec chunks entry)
    (tiles : chunks.flatten = spec.file.content)
    (holds : ∀ plaintext ∈ chunks, Holds libraries keys disk plaintext) :
    ∃ result, restoreFile fs libraries keys (serving.restorePeer libraries.blake3) disk tree entry
        report = .ok (result, disk) ∧
      result.written = entry.size ∧ Rebuilt result.tree (specs ++ [spec]) := by
  have sanitizedEntry : sanitizePath entry.path = .ok (splitPath spec.rel) := by
    rw [captured.path, sanitized]
  obtain ⟨created, opened, empty, others⟩ :=
    openOutput_complete succeeds rebuilt apart sanitizedEntry
  have begun : (⟨created, 0, report⟩ : Writing).tree[splitPath spec.rel]? =
      some (.file ⟨[], none, none⟩) := empty
  obtain ⟨received, fetched, written, counted⟩ :=
    fetchChunks_complete succeeds aeadInverts zstdInverts admitted captured.chunks holds begun
  obtain ⟨finished, finishedOk⟩ := finishFile_complete succeeds entry written.here
  have placed := (finishFile_ok written.here finishedOk).1
  refine ⟨{ received with tree := finished }, ?_, ?_, ?_, ?_⟩
  · simp only [restoreFile, opened, fetched, finishedOk]
  · simp [counted, captured.size]
  · intro other listed
    rcases List.mem_append.mp listed with earlier | last
    · have different : splitPath other.rel ≠ splitPath spec.rel := by
        intro same
        exact (apart other earlier).1 (same ▸ List.prefix_rfl)
      rw [placed.elsewhere _ different, written.elsewhere _ different]
      exact (others _ _ different).1 (rebuilt.each other earlier)
    · obtain rfl := List.mem_singleton.mp last
      rw [placed.here, captured.times, captured.mode, mtimeParts_eq]
      simp only [List.nil_append, tiles]
      rfl
  · intro place node found
    by_cases same : place = splitPath spec.rel
    · exact ⟨spec, by simp, same ▸ List.prefix_rfl, .inr same⟩
    · rw [placed.elsewhere _ same, written.elsewhere _ same] at found
      rcases (others _ _ same).2 found with before | ⟨isDir, within⟩
      · obtain ⟨other, earlier, onward⟩ := rebuilt.only place node before
        exact ⟨other, by simp [earlier], onward⟩
      · exact ⟨spec, by simp, within, .inl isDir⟩

/-- The file loop restores the captured files after the earlier ones. -/
theorem restoreFiles_complete (succeeds : fs.Succeeds) (aeadInverts : libraries.aead.Inverts)
    (zstdInverts : libraries.compressors.Inverts)
    (admitted : Daemon.authenticate serving.auth serving.fingerprint = .ok ())
    {earlier : List FileSpec} {entries : List FileEntry} {report : RestoreReport}
    (rebuilt : Rebuilt tree earlier) (apart : (earlier ++ specs).Pairwise Apart)
    (sanitized : ∀ spec ∈ specs, sanitizePath spec.rel = .ok (splitPath spec.rel))
    (captured : List.Forall₂ (fun spec entry => ∃ chunks, chunks.flatten = spec.file.content ∧
      Captured libraries keys spec chunks entry ∧
      ∀ plaintext ∈ chunks, Holds libraries keys disk plaintext) specs entries) :
    ∃ result final, restoreFiles fs libraries keys (serving.restorePeer libraries.blake3) entries
        disk tree report = .ok (result, final) ∧ Rebuilt final (earlier ++ specs) := by
  induction captured generalizing earlier tree report with
  | nil => exact ⟨report, tree, rfl, by simpa using rebuilt⟩
  | @cons spec entry rest others head _ inductionHypothesis =>
      obtain ⟨chunks, tiles, entryOk, holds⟩ := head
      obtain ⟨sanitizedHead, sanitizedRest⟩ := List.forall_mem_cons.mp sanitized
      have apartHead : ∀ other ∈ earlier, Apart other spec := fun other listed =>
        (List.pairwise_append.mp apart).2.2 other listed spec (by simp)
      have apartRest : (earlier ++ [spec] ++ rest).Pairwise Apart := by simpa using apart
      obtain ⟨written, restored, sized, rebuiltNext⟩ := restoreFile_complete succeeds aeadInverts
        zstdInverts admitted report rebuilt apartHead sanitizedHead entryOk tiles holds
      obtain ⟨result, final, completed, rebuiltFinal⟩ :=
        inductionHypothesis rebuiltNext apartRest sanitizedRest
      refine ⟨result, final, ?_, by simpa using rebuiltFinal⟩
      simp only [restoreFiles, restored]
      rw [if_neg (not_not.mpr sized)]
      exact completed

end Files

section Identity

variable {Threshold : Type} {fs : FileSystem} {libraries : Libraries}
  {tests : LengthTests Threshold} {keys : KeyPair} {nonces : Nat → Nonce} {content : Set Bytes}
  {serving : Serving}

/-- Restoring what a backup stored, where the daemon retains the snapshot,
yields the captured files: no more, no less, each with its bytes and time. -/
theorem restore_of_backup_is_identity (succeeds : fs.Succeeds)
    (aeadInverts : libraries.aead.Inverts) (zstdInverts : libraries.compressors.Inverts)
    (injective : Set.InjOn (idOf libraries keys) content)
    {request : BackupRequest Threshold} {disk final : Disk} {report : BackupReport}
    {target : Target}
    (wellFormed : RootsWellFormed request.roots)
    (tiles : ∀ bytes chunks, request.chunker bytes = some chunks → chunks.flatten = bytes)
    (covers : Covers content request) (faithful : Faithful libraries keys content disk)
    (retains : serving.Retains disk.tables request.snapshotId)
    (backedUp : runBackup libraries tests keys nonces (serving.backupPeer libraries.blake3) disk
      request = .ok (report, final))
    (emptyTarget : target = .absent ∨ target = .dir ∅) :
    ∃ specs restoreReport tree, collectFiles request.roots = .ok specs ∧
      runRestore fs libraries keys (serving.restorePeer libraries.blake3) final
        request.snapshotId target = .ok (restoreReport, tree) ∧
      ∀ (path : List String) (file : RestoredFile), tree[path]? = some (.file file) ↔
        ∃ spec ∈ specs, splitPath spec.rel = path ∧ restoredOf spec = file := by
  obtain ⟨admitted, specs, entries, encoded, nonce, sealedBlob, collected, captured, encodedOk,
    sealedOk, stored⟩ := runBackup_ok injective covers faithful retains backedUp
  obtain ⟨apart, sanitized⟩ := collectFiles_ok wellFormed collected
  have held : List.Forall₂ (fun spec entry => ∃ chunks, chunks.flatten = spec.file.content ∧
      Captured libraries keys spec chunks entry ∧
      ∀ plaintext ∈ chunks, Holds libraries keys final plaintext) specs entries := by
    refine List.forall₂_iff_zip.mpr ⟨captured.length_eq, fun {spec entry} paired => ?_⟩
    obtain ⟨listed, inEntries⟩ := List.of_mem_zip paired
    obtain ⟨chunks, cut, entryOk⟩ := (List.forall₂_iff_zip.mp captured).2 paired
    refine ⟨chunks, tiles _ _ cut, entryOk, fun plaintext inChunks => ?_⟩
    apply stored.faithful plaintext (covers specs collected spec listed chunks cut _ inChunks)
    apply stored.refs
    refine List.mem_flatMap.mpr ⟨entry, inEntries, ?_⟩
    rw [entryOk.chunks]
    exact List.mem_map_of_mem inChunks
  obtain ⟨restoreReport, tree, completed, rebuilt⟩ := restoreFiles_complete succeeds aeadInverts
    zstdInverts admitted rebuilt_empty (by simpa using apart) sanitized held
  rw [List.nil_append] at rebuilt
  refine ⟨specs, restoreReport, tree, collected, ?_, fun path file => ⟨fun found => ?_, ?_⟩⟩
  · have emptied : ensureEmptyTarget fs target = .ok ∅ := by
      rcases emptyTarget with rfl | rfl
      · rw [ensureEmptyTarget, if_pos (succeeds.permits _ _)]
      · rfl
    have answered : (serving.restorePeer libraries.blake3).getManifest final
        request.snapshotId.toBytes = (.ok sealedBlob, final) := by
      simp only [Serving.restorePeer, Serving.handle, admitted, Daemon.getManifest,
        Daemon.parseSnapshotId_toBytes, getManifestBlob, stored.manifest]
    have opened : decryptManifest libraries.aead keys.dataKey request.snapshotId sealedBlob =
        .ok encoded := openBlob_of_sealBlob aeadInverts sealedOk
    simp only [runRestore, emptied, answered, opened, Manifest.decode_of_encode encodedOk]
    exact completed
  · obtain ⟨spec, listed, _, isDir | isFile⟩ := rebuilt.only path _ found
    · cases isDir
    · rw [isFile, rebuilt.each spec listed] at found
      cases found
      exact ⟨spec, listed, isFile.symm, rfl⟩
  · rintro ⟨spec, listed, rfl, rfl⟩
    exact rebuilt.each spec listed

end Identity

section Sample

def fileF : FileName := ⟨utf8Bytes "f", by decide, by decide, by decide, by decide⟩

def folderD : FileName := ⟨utf8Bytes "d", by decide, by decide, by decide, by decide⟩

def folderE : FileName := ⟨utf8Bytes "e", by decide, by decide, by decide, by decide⟩

def folderG : FileName := ⟨utf8Bytes "g", by decide, by decide, by decide, by decide⟩

/-- A folder at the root with these entries. -/
def sampleRoot (name : FileName) (entries : List (FileName × SourceNode)) : Root :=
  ⟨utf8Bytes "/" ++ name.bytes, some name, some (.dir entries)⟩

/-- The file last changed a second before the epoch. -/
def earlyFile : SourceFile := ⟨[7], some ⟨-1, 5, by decide⟩, 33188⟩

/-- A file of one byte, changed after the epoch. -/
def lateFile (byte : UInt8) (mode : UInt32) : SourceFile :=
  ⟨[byte], some ⟨3, 0, by decide⟩, mode⟩

/-- A backup of the sample folders, each file as one chunk. -/
def sampleRequest : BackupRequest Unit where
  roots :=
    [sampleRoot folderD [(fileF, .file earlyFile)],
     sampleRoot folderE [(fileF, .file (lateFile 7 33261))],
     sampleRoot folderG [(fileF, .file (lateFile 8 33188))]]
  chunker := fun bytes => some (if bytes = [] then [] else [bytes])
  compression := ⟨false, false, 3, 9, (), (), ()⟩
  snapshotId := .fromParts 1 0
  createdAt := 5

def sampleTests : LengthTests Unit :=
  ⟨fun _ _ _ => false, fun _ _ _ => false, fun _ _ _ => false⟩

def sampleNonces (drawn : Nat) : Nonce := .replicate 24 (UInt8.ofNat (drawn + 2))

/-- The nonces of a backup that follows one cut off after its first blob. -/
def resumedNonces (drawn : Nat) : Nonce := sampleNonces (drawn + 1)

/-- A daemon without authentication that prunes after every backup. -/
def sampleServing : Serving := ⟨none, none, true, 10⟩

def sampleVolume : FileSystem := ⟨fun _ _ => true, fun _ => true⟩

theorem sampleVolume_succeeds : sampleVolume.Succeeds := ⟨fun _ _ => rfl, fun _ => rfl⟩

theorem sampleCompressors_invert : sampleLibraries.compressors.Inverts := by
  intro data level output encoded
  cases encoded

theorem sampleRequest_wellFormed : RootsWellFormed sampleRequest.roots := by
  intro root listed node present
  simp only [sampleRequest, List.mem_cons, List.not_mem_nil, or_false] at listed
  rcases listed with rfl | rfl | rfl
  all_goals
    cases present
    exact ⟨List.nodup_singleton _, trivial, trivial⟩

theorem sampleRequest_tiles (bytes : Bytes) (chunks : List Bytes)
    (cut : sampleRequest.chunker bytes = some chunks) : chunks.flatten = bytes := by
  cases cut
  split
  next empty => simp [empty]
  next => simp

theorem sampleRequest_contents {specs : List FileSpec}
    (collected : collectFiles sampleRequest.roots = .ok specs) :
    specs.map (fun spec => spec.file.content) = [[7], [7], [8]] := by
  have found : (collectFiles sampleRequest.roots).toOption.map (List.map fun spec =>
      spec.file.content) = some [[7], [7], [8]] := by
    decide +kernel
  rw [collected] at found
  exact Option.some.inj found

theorem sampleRequest_covers : Covers sampleContent sampleRequest := by
  intro specs collected spec listed chunks cut data inChunks
  have inContents := List.mem_map_of_mem (f := fun spec => spec.file.content) listed
  rw [sampleRequest_contents collected] at inContents
  simp only [List.mem_cons, List.not_mem_nil, or_false, or_self_left] at inContents
  rcases inContents with isShared | isLone
  · rw [isShared] at cut
    cases cut
    exact .inl (List.mem_singleton.mp inChunks)
  · rw [isLone] at cut
    cases cut
    exact .inr (List.mem_singleton.mp inChunks)

/-- The store of a daemon that holds the shared chunk, left by a backup that
was cut off. -/
def interruptedDisk : Disk :=
  (putChunk sampleBlake3 .empty sharedChunk (sampleBlob sharedChunk.asBytes)).2

/-- The store of a daemon that holds a snapshot with a greater ULID. -/
def laterSnapshotDisk : Disk :=
  ⟨(Transaction.putSnapshotAs (.fromParts 2 0) [] [] none).commit .empty, ∅⟩

theorem faithful_of_no_chunks {disk : Disk} (none : disk.tables.chunks.isEmpty = true) :
    Faithful sampleLibraries sampleKeys sampleContent disk := by
  intro plaintext _ indexed
  rw [ExtTreeMap.isEmpty_iff.mp none] at indexed
  simp at indexed

theorem interruptedDisk_faithful :
    Faithful sampleLibraries sampleKeys sampleContent interruptedDisk := by
  have empty : Faithful sampleLibraries sampleKeys sampleContent .empty :=
    faithful_of_no_chunks (by decide)
  have sealedFrom : SealedFrom sampleLibraries sampleKeys [7] (sampleBlob sharedChunk.asBytes) :=
    ⟨(.raw, [7]), .replicate 24 2, rfl, by decide +kernel⟩
  exact (faithful_putChunk sampleContent_injective empty (.inl rfl) sealedFrom).1

theorem sample_backup_restores :
    ∃ report final, runBackup sampleLibraries sampleTests sampleKeys resumedNonces
        (sampleServing.backupPeer sampleLibraries.blake3) interruptedDisk sampleRequest =
          .ok (report, final) ∧
      report.chunksTotal = 3 ∧ report.chunksDeduped = 1 ∧ report.chunksUploaded = 1 ∧
      ∃ specs restoreReport tree, collectFiles sampleRequest.roots = .ok specs ∧
        runRestore sampleVolume sampleLibraries sampleKeys
          (sampleServing.restorePeer sampleLibraries.blake3) final (.fromParts 1 0) .absent =
            .ok (restoreReport, tree) ∧
        ∀ (path : List String) (file : RestoredFile), tree[path]? = some (.file file) ↔
          ∃ spec ∈ specs, splitPath spec.rel = path ∧ restoredOf spec = file := by
  have checked : (runBackup sampleLibraries sampleTests sampleKeys resumedNonces
      (sampleServing.backupPeer sampleLibraries.blake3) interruptedDisk
      sampleRequest).toOption.map (fun result =>
        (result.1.chunksTotal, result.1.chunksDeduped, result.1.chunksUploaded)) =
          some (3, 1, 1) := by
    decide +kernel
  cases backedUp : runBackup sampleLibraries sampleTests sampleKeys resumedNonces
      (sampleServing.backupPeer sampleLibraries.blake3) interruptedDisk sampleRequest with
  | error error =>
      rw [backedUp] at checked
      cases checked
  | ok result =>
      obtain ⟨report, final⟩ := result
      rw [backedUp] at checked
      have retains : sampleServing.Retains interruptedDisk.tables sampleRequest.snapshotId := by
        intro _ other live
        simp [interruptedDisk, putChunk, indexChunk, Disk.empty, Tables.empty] at live
      have counts : (report.chunksTotal, report.chunksDeduped, report.chunksUploaded) =
          (3, 1, 1) := Option.some.inj checked
      simp only [Prod.mk.injEq] at counts
      obtain ⟨total, deduped, uploaded⟩ := counts
      exact ⟨report, final, rfl, total, deduped, uploaded,
        restore_of_backup_is_identity sampleVolume_succeeds
          sampleRecords_coherent.inverts sampleCompressors_invert sampleContent_injective
          sampleRequest_wellFormed sampleRequest_tiles sampleRequest_covers
          interruptedDisk_faithful retains backedUp (.inl rfl)⟩

/-- The daemon's own prune takes the new snapshot away before the backup
returns. -/
theorem backup_below_a_later_snapshot_is_lost :
    sampleVolume.Succeeds ∧ sampleLibraries.aead.Inverts ∧ sampleLibraries.compressors.Inverts ∧
      Set.InjOn (idOf sampleLibraries sampleKeys) sampleContent ∧
      RootsWellFormed sampleRequest.roots ∧
      (∀ bytes chunks, sampleRequest.chunker bytes = some chunks → chunks.flatten = bytes) ∧
      Covers sampleContent sampleRequest ∧
      Faithful sampleLibraries sampleKeys sampleContent laterSnapshotDisk ∧
      ∃ report final, runBackup sampleLibraries sampleTests sampleKeys sampleNonces
          (sampleServing.backupPeer sampleLibraries.blake3) laterSnapshotDisk sampleRequest =
            .ok (report, final) ∧
        runRestore sampleVolume sampleLibraries sampleKeys
          (sampleServing.restorePeer sampleLibraries.blake3) final (.fromParts 1 0) .absent =
            .error (.rpc .notFound) := by
  refine ⟨sampleVolume_succeeds, sampleRecords_coherent.inverts, sampleCompressors_invert,
    sampleContent_injective, sampleRequest_wellFormed, sampleRequest_tiles, sampleRequest_covers,
    faithful_of_no_chunks (by decide +kernel), ?_⟩
  have checked : (match runBackup sampleLibraries sampleTests sampleKeys sampleNonces
      (sampleServing.backupPeer sampleLibraries.blake3) laterSnapshotDisk sampleRequest with
    | .error _ => false
    | .ok (_, final) =>
        match runRestore sampleVolume sampleLibraries sampleKeys
          (sampleServing.restorePeer sampleLibraries.blake3) final (.fromParts 1 0) .absent with
        | .error error => decide (error = .rpc .notFound)
        | .ok _ => false) = true := by
    decide +kernel
  split at checked
  next => cases checked
  next report final backedUp =>
    refine ⟨report, final, backedUp, ?_⟩
    split at checked
    next error failed => rw [failed, of_decide_eq_true checked]
    next => cases checked

end Sample

end Busyncr.Client
