import Busyncr.Client.Restore

/-!
Every answer sequence of a daemon ends a restore in an error or in the right
files.
-/

namespace Busyncr.Client

open Std

section Operations

variable {fs : FileSystem} {tree next : Tree} {path : List String}

/-- Making directories keeps every node and adds no file. -/
theorem createDirs_ok {above names : List String}
    (created : createDirs tree above names = some next) :
    (∀ (place : List String) (node : Node), tree[place]? = some node → next[place]? = some node) ∧
      (∀ (place : List String) (file : RestoredFile), next[place]? = some (.file file) →
        tree[place]? = some (.file file)) ∧
      contentBytes next = contentBytes tree := by
  induction names generalizing tree above with
  | nil =>
      cases created
      exact ⟨fun _ _ found => found, fun _ _ found => found, rfl⟩
  | cons name rest inductionHypothesis =>
      simp only [createDirs] at created
      split at created
      next => cases created
      next => exact inductionHypothesis created
      next fresh =>
        obtain ⟨kept, old, sameBytes⟩ := inductionHypothesis created
        have grown := OrderedTable.total_insert Node.bytes tree (above ++ [name]) .dir
        rw [fresh] at grown
        refine ⟨fun place node found => kept place node ?_, fun place file found => ?_, ?_⟩
        · rw [OrderedTable.getElem?_insert_eq, if_neg, found]
          rintro rfl
          rw [fresh] at found
          cases found
        · have before := old place file found
          rw [OrderedTable.getElem?_insert_eq] at before
          split at before
          next => cases before
          next => exact before
        · rw [sameBytes]
          simpa [contentBytes, Node.bytes] using grown

theorem createDirAll_ok (created : createDirAll fs tree path = .ok next) :
    createDirs tree [] path = some next := by
  unfold createDirAll at created
  split at created
  next =>
    split at created
    next _ made =>
      cases created
      exact made
    next => cases created
  next => cases created

theorem createFile_ok (created : createFile fs tree path = .ok next) :
    next = tree.insert path (.file ⟨[], none, none⟩) := by
  unfold createFile at created
  split at created
  next =>
    split at created
    next => cases created
    next =>
      cases created
      rfl
  next => cases created

theorem updateFile_ok {op : FileOp} {change : RestoredFile → RestoredFile}
    (updated : updateFile fs op tree path change = .ok next) :
    ∃ file, tree[path]? = some (.file file) ∧
      next = tree.insert path (.file (change file)) ∧ fs.stores next = true := by
  unfold updateFile at updated
  split at updated
  next =>
    split at updated
    next file found =>
      simp only at updated
      split at updated
      next fits =>
        cases updated
        exact ⟨file, found, rfl, fits⟩
      next => cases updated
    next => cases updated
  next => cases updated

theorem ensureEmptyTarget_ok {target : Target} (emptied : ensureEmptyTarget fs target = .ok tree) :
    tree = ∅ := by
  unfold ensureEmptyTarget at emptied
  split at emptied
  next =>
    split at emptied
    next =>
      cases emptied
      rfl
    next => cases emptied
  next => cases emptied
  next entries =>
    split at emptied
    next empty =>
      cases emptied
      exact ExtTreeMap.isEmpty_iff.mp empty
    next => cases emptied

end Operations

/-- The tree holds the file at the path and is otherwise unchanged. -/
structure Placed (before : Tree) (path : List String) (file : RestoredFile) (after : Tree) :
    Prop where
  here : after[path]? = some (.file file)
  elsewhere : ∀ other, other ≠ path → after[other]? = before[other]?

theorem placed_insert (tree : Tree) (path : List String) (file : RestoredFile) :
    Placed tree path file (tree.insert path (.file file)) := by
  refine ⟨by simp, fun other different => ?_⟩
  rw [OrderedTable.getElem?_insert_eq, if_neg (Ne.symm different)]

theorem Placed.trans {first second third : Tree} {path : List String}
    {file later : RestoredFile} (placed : Placed first path file second)
    (again : Placed second path later third) : Placed first path later third :=
  ⟨again.here, fun other different =>
    (again.elsewhere other different).trans (placed.elsewhere other different)⟩

theorem contentBytes_update {tree : Tree} {path : List String} {file : RestoredFile}
    (found : tree[path]? = some (.file file)) (changed : RestoredFile) :
    contentBytes (tree.insert path (.file changed)) + file.content.length =
      contentBytes tree + changed.content.length := by
  have grown := OrderedTable.total_insert Node.bytes tree path (.file changed)
  rw [found] at grown
  exact grown

section Chunks

variable {fs : FileSystem} {libraries : Libraries} {keys : KeyPair}

/-- Some blob that opens under the ID decodes to this plaintext, which has
that ID. -/
def Verified (libraries : Libraries) (keys : KeyPair) (id : ChunkId) (plaintext : Bytes) : Prop :=
  ∃ blob framed, decryptChunk libraries.aead keys.dataKey id blob = .ok framed ∧
    decodeChunk libraries.compressors framed = .ok plaintext ∧
    ChunkId.keyed libraries.blake3 keys.chunkIdKey plaintext = id

theorem verifyChunk_ok {expected : ChunkId} {blob : Daemon.ChunkBlob} {plaintext : Bytes}
    (accepted : verifyChunk libraries keys expected blob = .ok plaintext) :
    Verified libraries keys expected plaintext := by
  unfold verifyChunk at accepted
  split at accepted
  next => cases accepted
  next =>
    split at accepted
    next => cases accepted
    next =>
      split at accepted
      next => cases accepted
      next framed opened =>
        split at accepted
        next => cases accepted
        next decoded unframed =>
          simp only at accepted
          split at accepted
          next => cases accepted
          next matching =>
            cases accepted
            exact ⟨blob.data, framed, opened, unframed, not_not.mp matching⟩

theorem append_ok {writing next : Writing} {path : List String} {plaintext : Bytes}
    (appended : writing.append fs path plaintext = .ok next) :
    ∃ file, writing.tree[path]? = some (.file file) ∧
      next.tree = writing.tree.insert path
        (.file { file with content := file.content ++ plaintext }) ∧
      next.written = writing.written + UInt64.ofNat plaintext.length ∧
      next.report = { writing.report with
        bytes := writing.report.bytes + UInt64.ofNat plaintext.length
        chunksFetched := writing.report.chunksFetched + 1 } := by
  unfold Writing.append at appended
  split at appended
  next => cases appended
  next tree written =>
    cases appended
    obtain ⟨file, found, same, _⟩ := updateFile_ok written
    exact ⟨file, found, same, rfl, rfl⟩

/-- What a completed stream wrote: one verified plaintext for each expected
chunk, in order. -/
structure Received (libraries : Libraries) (keys : KeyPair) (path : List String)
    (file : RestoredFile) (chunks : List ChunkId) (before after : Writing)
    (plaintexts : List Bytes) : Prop where
  verified : List.Forall₂ (Verified libraries keys) chunks plaintexts
  placed : Placed before.tree path
    { file with content := file.content ++ plaintexts.flatten } after.tree
  grown : contentBytes after.tree = contentBytes before.tree + plaintexts.flatten.length
  written : after.written = before.written + UInt64.ofNat plaintexts.flatten.length
  report : after.report = { before.report with
    bytes := before.report.bytes + UInt64.ofNat plaintexts.flatten.length
    chunksFetched := before.report.chunksFetched + UInt64.ofNat chunks.length }

theorem received_nil {path : List String} {file : RestoredFile} {writing : Writing}
    (found : writing.tree[path]? = some (.file file)) :
    Received libraries keys path file [] writing writing [] :=
  ⟨.nil, ⟨by simpa using found, fun _ _ => rfl⟩, by simp, by simp, by simp⟩

theorem receiveChunks_ok {path : List String} {chunks : List ChunkId}
    {stream : List (Except Daemon.Status Daemon.ChunkBlob)} {writing result : Writing}
    {file : RestoredFile} (found : writing.tree[path]? = some (.file file))
    (received : receiveChunks fs libraries keys path chunks stream writing = .ok result) :
    ∃ plaintexts, Received libraries keys path file chunks writing result plaintexts := by
  induction chunks generalizing stream writing file with
  | nil =>
      cases stream with
      | nil =>
          cases received
          exact ⟨[], received_nil found⟩
      | cons message later => cases message <;> cases received
  | cons expected rest inductionHypothesis =>
      cases stream with
      | nil => cases received
      | cons message later =>
          cases message with
          | error status => cases received
          | ok blob =>
              simp only [receiveChunks] at received
              split at received
              next => cases received
              next plaintext accepted =>
                split at received
                next => cases received
                next next appended =>
                  obtain ⟨held, foundBefore, nextTree, nextWritten, nextReport⟩ :=
                    append_ok appended
                  rw [found] at foundBefore
                  cases foundBefore
                  have placed := placed_insert writing.tree path
                    { file with content := file.content ++ plaintext }
                  rw [← nextTree] at placed
                  obtain ⟨plaintexts, remaining⟩ := inductionHypothesis placed.here received
                  have updated := contentBytes_update found
                    { file with content := file.content ++ plaintext }
                  rw [← nextTree, List.length_append] at updated
                  refine ⟨plaintext :: plaintexts,
                    .cons (verifyChunk_ok accepted) remaining.verified, ?_, ?_, ?_, ?_⟩
                  · simpa using placed.trans remaining.placed
                  · rw [remaining.grown, List.flatten_cons, List.length_append]
                    omega
                  · rw [remaining.written, nextWritten, List.flatten_cons, List.length_append,
                      UInt64.ofNat_add, UInt64.add_assoc]
                  · rw [remaining.report, nextReport, List.flatten_cons, List.length_append,
                      UInt64.ofNat_add, List.length_cons, UInt64.ofNat_add]
                    simp only [UInt64.add_assoc]
                    rw [UInt64.add_comm (UInt64.ofNat rest.length)]
                    rfl

theorem fetchChunks_ok {peer : Peer} {state nextState : peer.State} {path : List String}
    {entry : FileEntry} {writing result : Writing} {file : RestoredFile}
    (found : writing.tree[path]? = some (.file file))
    (fetched : fetchChunks fs libraries keys peer state path entry writing =
      .ok (result, nextState)) :
    ∃ plaintexts, Received libraries keys path file entry.chunks writing result plaintexts := by
  unfold fetchChunks at fetched
  split at fetched
  next none =>
    cases fetched
    rw [none]
    exact ⟨[], received_nil found⟩
  next =>
    split at fetched
    next => cases fetched
    next =>
      split at fetched
      next => cases fetched
      next received accepted =>
        cases fetched
        exact receiveChunks_ok found accepted

theorem finishFile_ok {tree next : Tree} {path : List String} {entry : FileEntry}
    {file : RestoredFile} (found : tree[path]? = some (.file file))
    (finished : finishFile fs tree path entry = .ok next) :
    Placed tree path
        { file with mtime := some (entry.mtimeSecs, entry.mtimeNanos), mode := some entry.mode }
        next ∧
      contentBytes next = contentBytes tree ∧ fs.stores next = true := by
  unfold finishFile at finished
  split at finished
  next => cases finished
  next synced syncedOk =>
    split at finished
    next => cases finished
    next timed timedOk =>
      obtain ⟨first, foundFirst, syncedEq, _⟩ := updateFile_ok syncedOk
      rw [found] at foundFirst
      cases foundFirst
      have syncedPlaced := placed_insert tree path file
      have syncedBytes := contentBytes_update found file
      rw [← show synced = tree.insert path (.file file) from syncedEq] at syncedPlaced syncedBytes
      obtain ⟨second, foundSecond, timedEq, _⟩ := updateFile_ok timedOk
      rw [syncedPlaced.here] at foundSecond
      cases foundSecond
      have timedPlaced := placed_insert synced path
        { file with mtime := some (entry.mtimeSecs, entry.mtimeNanos) }
      have timedBytes := contentBytes_update syncedPlaced.here
        { file with mtime := some (entry.mtimeSecs, entry.mtimeNanos) }
      rw [← timedEq] at timedPlaced timedBytes
      obtain ⟨third, foundThird, nextEq, stored⟩ := updateFile_ok finished
      rw [timedPlaced.here] at foundThird
      cases foundThird
      have nextPlaced := placed_insert timed path
        { file with mtime := some (entry.mtimeSecs, entry.mtimeNanos), mode := some entry.mode }
      have nextBytes := contentBytes_update timedPlaced.here
        { file with mtime := some (entry.mtimeSecs, entry.mtimeNanos), mode := some entry.mode }
      rw [← nextEq] at nextPlaced nextBytes
      refine ⟨(syncedPlaced.trans timedPlaced).trans nextPlaced, ?_, stored⟩
      simp only at timedBytes nextBytes
      omega

end Chunks

/-- Opening the output adds the empty file and otherwise only directories. -/
theorem openOutput_ok {fs : FileSystem} {tree next : Tree} {entry : FileEntry}
    {path : List String} (opened : openOutput fs tree entry = .ok (path, next))
    (fresh : ∀ file, tree[splitPath entry.path]? ≠ some (.file file)) :
    path = splitPath entry.path ∧ next[path]? = some (.file ⟨[], none, none⟩) ∧
      (∀ other, other ≠ path → ∀ file,
        next[other]? = some (.file file) ↔ tree[other]? = some (.file file)) ∧
      contentBytes next = contentBytes tree := by
  unfold openOutput at opened
  split at opened
  next => cases opened
  next rel sanitized =>
    split at opened
    next => cases opened
    next parents made =>
      split at opened
      next => cases opened
      next created createdOk =>
        cases opened
        obtain ⟨rfl, _⟩ := sanitizePath_ok sanitized
        obtain ⟨kept, old, sameBytes⟩ := createDirs_ok (createDirAll_ok made)
        have created := createFile_ok createdOk
        have placed := placed_insert parents (splitPath entry.path) ⟨[], none, none⟩
        rw [← created] at placed
        refine ⟨rfl, placed.here, fun other different file => ?_, ?_⟩
        · rw [placed.elsewhere other different]
          exact ⟨old other file, kept other (.file file)⟩
        · have grown := OrderedTable.total_insert Node.bytes parents (splitPath entry.path)
            (.file ⟨[], none, none⟩)
          have nothing : (parents[splitPath entry.path]?.map Node.bytes).getD 0 = 0 := by
            cases found : parents[splitPath entry.path]? with
            | none => rfl
            | some node =>
                cases node with
                | dir => rfl
                | file stored => exact absurd (old _ stored found) (fresh stored)
          rw [nothing, ← created] at grown
          exact grown.trans sameBytes

/-- An entry restored from the tree before it: its file is in place, and no
other file changed. -/
structure FileRestored (libraries : Libraries) (keys : KeyPair) (before after : Tree)
    (entry : FileEntry) (plaintexts : List Bytes) : Prop where
  verified : List.Forall₂ (Verified libraries keys) entry.chunks plaintexts
  here : after[splitPath entry.path]? = some (.file
    ⟨plaintexts.flatten, some (entry.mtimeSecs, entry.mtimeNanos), some entry.mode⟩)
  elsewhere : ∀ other, other ≠ splitPath entry.path → ∀ file,
    after[other]? = some (.file file) ↔ before[other]? = some (.file file)
  grown : contentBytes after = contentBytes before + plaintexts.flatten.length

theorem restoreFile_ok {fs : FileSystem} {libraries : Libraries} {keys : KeyPair} {peer : Peer}
    {state nextState : peer.State} {tree : Tree} {entry : FileEntry} {report : RestoreReport}
    {result : Writing} (fresh : ∀ file, tree[splitPath entry.path]? ≠ some (.file file))
    (restored : restoreFile fs libraries keys peer state tree entry report =
      .ok (result, nextState)) :
    ∃ plaintexts, FileRestored libraries keys tree result.tree entry plaintexts ∧
      result.written = UInt64.ofNat plaintexts.flatten.length ∧
      result.report = { report with
        bytes := report.bytes + UInt64.ofNat plaintexts.flatten.length
        chunksFetched := report.chunksFetched + UInt64.ofNat entry.chunks.length } ∧
      fs.stores result.tree = true := by
  unfold restoreFile at restored
  split at restored
  next => cases restored
  next path created openedOk =>
    split at restored
    next => cases restored
    next received next fetched =>
      split at restored
      next => cases restored
      next finished finishedOk =>
        cases restored
        obtain ⟨rfl, opened, others, openedBytes⟩ := openOutput_ok openedOk fresh
        obtain ⟨plaintexts, written⟩ := fetchChunks_ok opened fetched
        obtain ⟨placed, sameBytes, stored⟩ := finishFile_ok written.placed.here finishedOk
        refine ⟨plaintexts, ⟨written.verified, placed.here, ?_, ?_⟩, ?_, written.report, stored⟩
        · intro other different file
          rw [placed.elsewhere other different, written.placed.elsewhere other different]
          exact others other different file
        · rw [sameBytes, written.grown, openedBytes]
        · simpa using written.written

/-- The files of the tree are those of the entries, each with verified
content of the declared size. -/
structure Restored (libraries : Libraries) (keys : KeyPair) (tree : Tree)
    (entries : List FileEntry) : Prop where
  only : ∀ (path : List String) (file : RestoredFile), tree[path]? = some (.file file) →
    ∃ entry ∈ entries, splitPath entry.path = path
  each : ∀ entry ∈ entries, ∃ plaintexts,
    List.Forall₂ (Verified libraries keys) entry.chunks plaintexts ∧
      tree[splitPath entry.path]? = some (.file
        ⟨plaintexts.flatten, some (entry.mtimeSecs, entry.mtimeNanos), some entry.mode⟩) ∧
      plaintexts.flatten.length = entry.size.toNat

theorem restored_empty {libraries : Libraries} {keys : KeyPair} : Restored libraries keys ∅ [] := by
  refine ⟨fun path file found => ?_, by simp⟩
  simp at found

/-- One more entry, at a path none of the others has. -/
theorem Restored.concat {libraries : Libraries} {keys : KeyPair} {before after : Tree}
    {entries : List FileEntry} {entry : FileEntry} {plaintexts : List Bytes}
    (restored : Restored libraries keys before entries)
    (distinct : entry.path ∉ entries.map FileEntry.path)
    (file : FileRestored libraries keys before after entry plaintexts)
    (sized : plaintexts.flatten.length = entry.size.toNat) :
    Restored libraries keys after (entries ++ [entry]) := by
  refine ⟨fun path stored found => ?_, fun other membership => ?_⟩
  · by_cases same : path = splitPath entry.path
    · exact ⟨entry, by simp, same.symm⟩
    · obtain ⟨other, membership, split⟩ :=
        restored.only path stored ((file.elsewhere path same stored).mp found)
      exact ⟨other, by simp [membership], split⟩
  · rcases List.mem_append.mp membership with earlier | last
    · obtain ⟨content, verified, found, size⟩ := restored.each other earlier
      have different : splitPath other.path ≠ splitPath entry.path := by
        intro same
        apply distinct
        exact List.mem_map.mpr ⟨other, earlier, splitPath_injective same⟩
      exact ⟨content, verified, (file.elsewhere _ different _).mpr found, size⟩
    · rw [List.mem_singleton.mp last]
      exact ⟨plaintexts, file.verified, file.here, sized⟩

/-- The sum of the declared sizes. -/
def declaredBytes (entries : List FileEntry) : Nat :=
  (entries.map fun entry => entry.size.toNat).sum

/-- The file loop, from the entries restored before it. -/
theorem restoreFiles_ok {fs : FileSystem} (addressable : fs.Addressable) {libraries : Libraries}
    {keys : KeyPair} {peer : Peer} {files earlier : List FileEntry} {state : peer.State}
    {tree final : Tree} {report result : RestoreReport}
    (before : Restored libraries keys tree earlier)
    (distinct : ((earlier ++ files).map FileEntry.path).Nodup)
    (fits : contentBytes tree < 2 ^ 64)
    (completed : restoreFiles fs libraries keys peer files state tree report =
      .ok (result, final)) :
    Restored libraries keys final (earlier ++ files) ∧
      contentBytes final = contentBytes tree + declaredBytes files ∧
      contentBytes final < 2 ^ 64 ∧
      result = { report with
        files := report.files + UInt64.ofNat files.length
        bytes := report.bytes + UInt64.ofNat (declaredBytes files)
        chunksFetched := report.chunksFetched +
          UInt64.ofNat (files.flatMap FileEntry.chunks).length } := by
  induction files generalizing earlier state tree report with
  | nil =>
      cases completed
      exact ⟨by simpa using before, by simp [declaredBytes], fits, by simp [declaredBytes]⟩
  | cons entry rest inductionHypothesis =>
      simp only [restoreFiles] at completed
      split at completed
      next => cases completed
      next written nextState restoredOk =>
        split at completed
        next => cases completed
        next sized =>
          have fresh : entry.path ∉ earlier.map FileEntry.path := by
            intro membership
            rw [List.map_append, List.map_cons] at distinct
            exact (List.nodup_append.mp distinct).2.2 _ membership _ (by simp) rfl
          have noFile : ∀ file, tree[splitPath entry.path]? ≠ some (.file file) := by
            intro file found
            obtain ⟨other, membership, same⟩ := before.only _ file found
            exact fresh (List.mem_map.mpr ⟨other, membership, splitPath_injective same⟩)
          obtain ⟨plaintexts, file, counted, reported, stored⟩ := restoreFile_ok noFile restoredOk
          have fitsNext := addressable _ stored
          have grown := file.grown
          have size : plaintexts.flatten.length = entry.size.toNat := by
            rw [← not_not.mp sized, counted, UInt64.toNat_ofNat', Nat.mod_eq_of_lt]
            omega
          have distinctRest : ((earlier ++ [entry] ++ rest).map FileEntry.path).Nodup := by
            simpa using distinct
          obtain ⟨restored, total, bound, tallied⟩ := inductionHypothesis
            (before.concat fresh file size) distinctRest fitsNext completed
          refine ⟨by simpa using restored, ?_, bound, ?_⟩
          · rw [total, grown, size]
            simp [declaredBytes, Nat.add_assoc]
          · rw [tallied, reported, size]
            simp [declaredBytes, UInt64.ofNat_add, UInt64.add_assoc, UInt64.add_comm]
            ac_rfl

/-- Plaintexts that share their IDs are the same where IDs are unique. -/
theorem eq_of_map_keyed_eq {blake3 : Blake3} {key : ChunkIdKey} {known : Set Bytes}
    (injective : Set.InjOn (ChunkId.keyed blake3 key) known) {left right : List Bytes}
    (leftKnown : ∀ plaintext ∈ left, plaintext ∈ known)
    (rightKnown : ∀ plaintext ∈ right, plaintext ∈ known)
    (same : left.map (ChunkId.keyed blake3 key) = right.map (ChunkId.keyed blake3 key)) :
    left = right := by
  induction left generalizing right with
  | nil => simpa using same.symm
  | cons plaintext rest inductionHypothesis =>
      cases right with
      | nil => simp at same
      | cons other others =>
          simp only [List.map_cons, List.cons.injEq] at same
          simp only [List.forall_mem_cons] at leftKnown rightKnown
          rw [injective leftKnown.1 rightKnown.1 same.1,
            inductionHypothesis leftKnown.2 rightKnown.2 same.2]

section Correctness

variable {fs : FileSystem} {libraries : Libraries} {keys : KeyPair} {sealings : Set Sealing}
  {known : Set Bytes}

/-- Verified plaintexts have the IDs they were verified for, and are known if
every sealed chunk is. -/
theorem identified_of_verified (authentic : Authentic libraries.aead keys.dataKey sealings)
    (inverts : libraries.aead.Inverts)
    (hashed : ∀ sealing ∈ sealings, ∀ id : ChunkId, sealing.aad = id.asBytes →
      ∀ plaintext, decodeChunk libraries.compressors sealing.plaintext = .ok plaintext →
        plaintext ∈ known)
    {chunks : List ChunkId} {plaintexts : List Bytes}
    (verified : List.Forall₂ (Verified libraries keys) chunks plaintexts) :
    plaintexts.map (ChunkId.keyed libraries.blake3 keys.chunkIdKey) = chunks ∧
      ∀ plaintext ∈ plaintexts, plaintext ∈ known := by
  induction verified with
  | nil => simp
  | cons head _ inductionHypothesis =>
      obtain ⟨blob, framed, opened, decoded, identified⟩ := head
      obtain ⟨sealing, membership, sameAad, rfl⟩ := authentic.exists_sealing inverts opened
      refine ⟨by rw [List.map_cons, identified, inductionHypothesis.1], ?_⟩
      exact List.forall_mem_cons.mpr
        ⟨hashed sealing membership _ sameAad _ decoded, inductionHypothesis.2⟩

theorem toNat_ofNat_of_lt {count : Nat} (small : count < 2 ^ 64) :
    (0 + UInt64.ofNat count).toNat = count := by
  rw [UInt64.zero_add, UInt64.toNat_ofNat', Nat.mod_eq_of_lt small]

/-- Whatever a daemon answers, a restore that succeeds wrote exactly the
files of a manifest sealed for the snapshot, each as the plaintexts its chunk
list names, and reported them. -/
theorem restore_correct_against_any_daemon (known : Set Bytes) (addressable : fs.Addressable)
    (inverts : libraries.aead.Inverts)
    (authentic : Authentic libraries.aead keys.dataKey sealings)
    (built : ∀ sealing ∈ sealings, ∀ snapshot : Ulid, sealing.aad = snapshot.toBytes →
      ∃ manifest : Manifest, manifest.encode = .ok sealing.plaintext ∧
        (manifest.files.map FileEntry.path).Nodup)
    (injective : Set.InjOn (ChunkId.keyed libraries.blake3 keys.chunkIdKey) known)
    (hashed : ∀ sealing ∈ sealings, ∀ id : ChunkId, sealing.aad = id.asBytes →
      ∀ plaintext, decodeChunk libraries.compressors sealing.plaintext = .ok plaintext →
        plaintext ∈ known)
    {peer : Peer} {state : peer.State} {snapshot : Ulid} {target : Target}
    {report : RestoreReport} {tree : Tree}
    (succeeded : runRestore fs libraries keys peer state snapshot target = .ok (report, tree)) :
    ∃ manifest : Manifest,
      (∃ sealing ∈ sealings, sealing.aad = snapshot.toBytes ∧
        manifest.encode = .ok sealing.plaintext) ∧
      (∀ (path : List String) (file : RestoredFile), tree[path]? = some (.file file) →
        ∃ entry ∈ manifest.files, splitPath entry.path = path) ∧
      (∀ entry ∈ manifest.files, ∃ plaintexts,
        tree[splitPath entry.path]? = some (.file
          ⟨plaintexts.flatten, some (entry.mtimeSecs, entry.mtimeNanos), some entry.mode⟩) ∧
        plaintexts.map (ChunkId.keyed libraries.blake3 keys.chunkIdKey) = entry.chunks ∧
        (∀ plaintext ∈ plaintexts, plaintext ∈ known) ∧
        (∀ others : List Bytes, (∀ plaintext ∈ others, plaintext ∈ known) →
          others.map (ChunkId.keyed libraries.blake3 keys.chunkIdKey) = entry.chunks →
          others = plaintexts) ∧
        plaintexts.flatten.length = entry.size.toNat) ∧
      report.files.toNat = manifest.files.length ∧
      report.bytes.toNat = (manifest.files.map fun entry => entry.size.toNat).sum ∧
      report.chunksFetched.toNat = manifest.chunkRefs.length := by
  unfold runRestore at succeeded
  split at succeeded
  next => cases succeeded
  next start emptied =>
    split at succeeded
    next => cases succeeded
    next blob next replied =>
      split at succeeded
      next => cases succeeded
      next plaintext opened =>
        obtain ⟨sealing, membership, sameAad, rfl⟩ := authentic.exists_sealing inverts opened
        obtain ⟨manifest, encoded, distinct⟩ := built sealing membership snapshot sameAad
        rw [Manifest.decode_of_encode encoded] at succeeded
        obtain rfl : start = ∅ := ensureEmptyTarget_ok emptied
        have nothing : Restored libraries keys ∅ [] := restored_empty
        obtain ⟨restored, total, bound, tallied⟩ := restoreFiles_ok addressable nothing
          (by simpa using distinct) (by simp [contentBytes, OrderedTable.total]) succeeded
        obtain ⟨filesBound, refsBound⟩ := Manifest.counts_of_encode encoded
        rw [total] at bound
        rw [List.nil_append] at restored
        refine ⟨manifest, ⟨sealing, membership, sameAad, encoded⟩, restored.only, ?_, ?_, ?_, ?_⟩
        · intro entry listed
          obtain ⟨plaintexts, verified, found, size⟩ := restored.each entry listed
          obtain ⟨identified, areKnown⟩ := identified_of_verified authentic inverts hashed verified
          refine ⟨plaintexts, found, identified, areKnown, fun others othersKnown same => ?_, size⟩
          exact eq_of_map_keyed_eq injective othersKnown areKnown (same.trans identified.symm)
        · rw [tallied]
          exact toNat_ofNat_of_lt filesBound
        · rw [tallied]
          exact toNat_ofNat_of_lt (by simpa [contentBytes, OrderedTable.total] using bound)
        · rw [tallied]
          exact toNat_ofNat_of_lt refsBound

end Correctness

section Sample

/-- A backup set and one snapshot of it: a file of one byte in each of three
folders, the first two alike. -/
def sampleKeys : KeyPair := ⟨⟨.replicate 32 1⟩, ⟨.replicate 32 0⟩⟩

def sharedChunk : ChunkId :=
  ⟨#v[0xa1, 0xef, 0x97, 0x9d, 0x11, 0x1c, 0xf2, 0xf1, 0xff, 0x74, 0xc8, 0x02,
      0x9f, 0xde, 0xa8, 0x60, 0x46, 0x59, 0xf1, 0x76, 0xc4, 0xa8, 0xdc, 0xc9,
      0xb8, 0xb0, 0xdf, 0x12, 0xc9, 0xd7, 0xb4, 0x54]⟩

def loneChunk : ChunkId :=
  ⟨#v[0x3e, 0xbf, 0x7e, 0x6c, 0x91, 0xcf, 0x5b, 0xc1, 0x92, 0x2b, 0xad, 0xe4,
      0x16, 0x2a, 0x54, 0x96, 0x9c, 0xa6, 0x4b, 0x54, 0xff, 0x48, 0x8b, 0x03,
      0xdc, 0xfc, 0x53, 0x59, 0xac, 0xbf, 0x16, 0x60]⟩

def sampleManifest : Manifest :=
  ⟨.fromParts 1 0, 5,
    [⟨"d/f", 1, -1, 5, 33188, [sharedChunk]⟩,
     ⟨"e/f", 1, 3, 0, 33261, [sharedChunk]⟩,
     ⟨"g/f", 1, 3, 0, 33188, [loneChunk]⟩]⟩

def sampleEncoding : Bytes := sampleManifest.encode.toOption.getD []

/-- The three blobs of the snapshot, as XChaCha20-Poly1305 seals them. -/
def sampleRecords : List AeadRecord :=
  [{ key := sampleKeys.dataKey
     sealing := ⟨sharedChunk.asBytes, [0, 7], .replicate 24 2⟩
     ciphertext := [0xcc, 0x61, 0xee, 0x23, 0x87, 0x7f, 0x69, 0xe1, 0x16, 0xf8, 0x94, 0x2d,
        0xb4, 0xda, 0x1f, 0xcd, 0x99, 0xf0] },
   { key := sampleKeys.dataKey
     sealing := ⟨loneChunk.asBytes, [0, 8], .replicate 24 3⟩
     ciphertext := [0x4e, 0x08, 0xc2, 0xcf, 0xcf, 0x99, 0xb5, 0x62, 0xe8, 0xef, 0x23, 0x6a,
        0x32, 0x95, 0x59, 0x1e, 0x45, 0x6d] },
   { key := sampleKeys.dataKey
     sealing := ⟨(Ulid.fromParts 1 0).toBytes, sampleEncoding, .replicate 24 4⟩
     ciphertext := [0x3f, 0x15, 0xa2, 0x67, 0xa8, 0x87, 0x6b, 0x28, 0xe8, 0xe0, 0xb9, 0xf0,
        0x38, 0x7f, 0xa2, 0x21, 0x8f, 0xd2, 0x72, 0x75, 0x11, 0x37, 0x63, 0x6e,
        0xb2, 0x1a, 0xb5, 0xc7, 0xd9, 0x70, 0xb8, 0x83, 0xbe, 0xdd, 0xd6, 0x50,
        0xaa, 0xcc, 0xf6, 0xa1, 0x34, 0xec, 0x89, 0x2e, 0x94, 0x28, 0x29, 0xa0,
        0x81, 0x6a, 0x66, 0x31, 0xe9, 0xcf, 0x59, 0x0a, 0x2e, 0x28, 0x19, 0xee,
        0xb8, 0x6b, 0x68, 0xc0, 0xbd, 0xe4, 0x28, 0xaa, 0x4b, 0x03, 0x4f, 0xbe,
        0x2f, 0x7f, 0x8f, 0x8c, 0x7d, 0x55, 0xf7, 0x31, 0x41, 0x4c, 0xf3, 0xd9,
        0xcd, 0xb6, 0x9e, 0x97, 0x6c, 0xcb, 0xc6, 0x63, 0x70, 0x56, 0x00, 0x7f,
        0xd7, 0x25, 0xfa, 0x00, 0xf5, 0x4d, 0xe6, 0xba, 0x5d, 0xfb, 0x98, 0x31,
        0xcf, 0xb0, 0xa2, 0x68, 0xbb, 0xb5, 0xb7, 0x48, 0x4b, 0x20, 0xd5, 0xb7,
        0x66, 0x8b, 0xa6, 0x01, 0xf0, 0x66, 0x0b, 0x59, 0xbb, 0x65, 0xc0, 0x82,
        0x1a, 0xc3, 0x67, 0x05, 0x5f, 0x61, 0x1b, 0x11, 0xaf, 0x0f, 0x5b, 0xaf,
        0x8a, 0x56, 0xe6, 0x43, 0xd3, 0x1f, 0x11, 0xb2, 0xe0, 0x48, 0x1e, 0x63,
        0x81, 0x00, 0xd8, 0x36, 0x53, 0x98, 0xc4, 0x12, 0x5b, 0x21, 0x3e, 0x7e,
        0x82, 0x73, 0x8b, 0xa7, 0x95, 0x1a, 0x67, 0x3d, 0xe5, 0x85, 0x5f, 0x14,
        0x6a, 0x5d, 0x2b, 0x5e, 0x95, 0xea, 0x32, 0x4c, 0x88, 0x42, 0xfe, 0xf4,
        0x77, 0x4b, 0x6d, 0x79, 0x0b, 0x1b, 0x6d, 0x2b, 0x31, 0xa8, 0x3f, 0xd6,
        0xe3, 0xd0, 0xa5, 0xfd, 0xfb, 0xdb, 0x89, 0xbe, 0x55, 0x9e, 0x15, 0x8c,
        0x26, 0x20, 0x11, 0x19, 0x01, 0x14, 0x28, 0xe4, 0xc0, 0xce, 0x1b, 0xea,
        0x17, 0x2a, 0x9a, 0xed, 0x20, 0x1e, 0xce, 0x41, 0xff, 0x72, 0x7e, 0x51,
        0xa8, 0xd8, 0x68, 0xde, 0xb0] }]

/-- The blob of the snapshot under this associated data. -/
def sampleBlob (aad : Bytes) : Bytes :=
  ((sampleRecords.find? fun record => record.sealing.aad = aad).map AeadRecord.blob).getD []

/-- BLAKE3 of the plaintexts, plain and under the zero key, and of their sealed
blobs. -/
def sampleBlake3 : Blake3 where
  hash bytes :=
    if bytes = [7] then
      #v[0x44, 0x8b, 0xd8, 0xdd, 0x96, 0x24, 0x15, 0x4a, 0x69, 0x0f, 0x8e, 0x84,
        0xdc, 0x52, 0xd6, 0xf6, 0x33, 0xba, 0x7c, 0xd5, 0x45, 0xc4, 0xd3, 0xc9,
        0xb4, 0xe0, 0xf6, 0xa2, 0xf6, 0xfa, 0x71, 0xf4]
    else if bytes = [8] then
      #v[0x2e, 0xf3, 0xe0, 0xdd, 0xa5, 0x29, 0x3b, 0xda, 0x96, 0x5d, 0x0a, 0xdc,
        0xed, 0xfc, 0x7d, 0x38, 0x72, 0x44, 0xac, 0x73, 0x6a, 0x60, 0x14, 0xa7,
        0x20, 0xc1, 0xd6, 0x3f, 0xa0, 0xed, 0xe0, 0x2f]
    else if bytes = sampleBlob sharedChunk.asBytes then
      #v[0xe7, 0x95, 0xc3, 0xcd, 0x15, 0xa9, 0x61, 0xdc, 0xc6, 0xfc, 0x71, 0x4a,
        0xdb, 0x41, 0x37, 0x0c, 0xd1, 0xc6, 0x17, 0x89, 0x91, 0xcf, 0x0e, 0xbf,
        0xc4, 0xc1, 0x8c, 0x0a, 0x23, 0xb0, 0x7c, 0x13]
    else
      #v[0xff, 0xb7, 0xe9, 0x73, 0xbe, 0xaa, 0x33, 0x3b, 0x89, 0xcb, 0xd9, 0x4f,
        0xff, 0x5d, 0x7f, 0x35, 0xc2, 0x2a, 0xf2, 0xce, 0xc8, 0x81, 0xee, 0x1d,
        0xf6, 0xf6, 0x67, 0x3b, 0x91, 0x18, 0xf7, 0xfd]
  keyedHash _ plaintext := if plaintext = [7] then sharedChunk.raw else loneChunk.raw

/-- The hash and the cipher of the snapshot; zstd and lz4 refuse. -/
def sampleLibraries : Libraries where
  blake3 := sampleBlake3
  aead := .ofRecords sampleRecords
  compressors := ⟨fun _ _ => none, fun _ => none, List.length⟩

/-- A volume that takes whatever it can address. -/
def sampleFileSystem : FileSystem where
  permits _ _ := true
  stores tree := decide (contentBytes tree < 2 ^ 64)

/-- A daemon that answers with the blobs of the snapshot. -/
def samplePeer : Peer where
  State := Unit
  getManifest _ snapshot := (.ok (sampleBlob snapshot), ())
  getChunks _ ids := (.ok (ids.map fun id => .ok ⟨id, sampleBlob id⟩), ())

/-- The plaintexts of the chunks. -/
def sampleContent : Set Bytes := {[7], [8]}

theorem sampleContent_injective :
    Set.InjOn (ChunkId.keyed sampleLibraries.blake3 sampleKeys.chunkIdKey) sampleContent := by
  rintro left (rfl | rfl) right (rfl | rfl) same
  all_goals first | rfl | exact absurd same (by decide)

theorem sampleRecords_coherent : Coherent sampleRecords := by decide +kernel

theorem sample_encodes : sampleManifest.encode = .ok sampleEncoding := by
  cases outcome : sampleManifest.encode with
  | error error =>
      have checked : sampleManifest.encode.isOk = true := by decide +kernel
      rw [outcome] at checked
      cases checked
  | ok bytes => rw [sampleEncoding, outcome]; rfl

theorem asBytes_ne_toBytes (id : ChunkId) (snapshot : Ulid) : id.asBytes ≠ snapshot.toBytes := by
  intro same
  simpa using congrArg List.length same

/-- What was sealed is a framed chunk under its ID or the manifest. -/
theorem sampleRecords_cases {sealing : Sealing}
    (recorded : sealing ∈ sampleRecords.map AeadRecord.sealing) :
    (∃ id : ChunkId, ∃ data ∈ sampleContent,
      sealing.aad = id.asBytes ∧ sealing.plaintext = 0 :: data) ∨
    (sealing.aad = (Ulid.fromParts 1 0).toBytes ∧ sealing.plaintext = sampleEncoding) := by
  have listed : sealing ∈ [⟨sharedChunk.asBytes, [0, 7], .replicate 24 2⟩,
      ⟨loneChunk.asBytes, [0, 8], .replicate 24 3⟩,
      ⟨(Ulid.fromParts 1 0).toBytes, sampleEncoding, .replicate 24 4⟩] := recorded
  simp only [List.mem_cons, List.not_mem_nil, or_false] at listed
  rcases listed with rfl | rfl | rfl
  · exact .inl ⟨sharedChunk, [7], .inl rfl, rfl, rfl⟩
  · exact .inl ⟨loneChunk, [8], .inr rfl, rfl, rfl⟩
  · exact .inr ⟨rfl, rfl⟩

theorem encoding_of_sampleRecords {sealing : Sealing}
    (recorded : sealing ∈ sampleRecords.map AeadRecord.sealing) {snapshot : Ulid}
    (sameAad : sealing.aad = snapshot.toBytes) : sealing.plaintext = sampleEncoding := by
  rcases sampleRecords_cases recorded with ⟨id, _, _, isChunk, _⟩ | ⟨_, isManifest⟩
  · exact absurd (isChunk.symm.trans sameAad) (asBytes_ne_toBytes id snapshot)
  · exact isManifest

theorem content_of_sampleRecords {sealing : Sealing}
    (recorded : sealing ∈ sampleRecords.map AeadRecord.sealing) {id : ChunkId}
    (sameAad : sealing.aad = id.asBytes) {plaintext : Bytes}
    (decoded : decodeChunk sampleLibraries.compressors sealing.plaintext = .ok plaintext) :
    plaintext ∈ sampleContent := by
  rcases sampleRecords_cases recorded with ⟨_, data, inContent, _, isFrame⟩ | ⟨isManifest, _⟩
  · rw [isFrame] at decoded
    cases decoded
    exact inContent
  · exact absurd (sameAad.symm.trans isManifest) (asBytes_ne_toBytes id _)

theorem sample_restores :
    ∃ report tree,
      runRestore sampleFileSystem sampleLibraries sampleKeys samplePeer () (.fromParts 1 0)
        .absent = .ok (report, tree) ∧
      ∃ manifest : Manifest, manifest.encode = .ok sampleEncoding ∧
        (∀ entry ∈ manifest.files, ∃ plaintexts : List Bytes,
          tree[splitPath entry.path]? = some (.file
            ⟨plaintexts.flatten, some (entry.mtimeSecs, entry.mtimeNanos), some entry.mode⟩)) ∧
        report.files.toNat = manifest.files.length := by
  have checked : (runRestore sampleFileSystem sampleLibraries sampleKeys samplePeer ()
      (.fromParts 1 0) .absent).isOk = true := by
    decide +kernel
  cases succeeded : runRestore sampleFileSystem sampleLibraries sampleKeys samplePeer ()
      (.fromParts 1 0) .absent with
  | error error =>
      rw [succeeded] at checked
      cases checked
  | ok result =>
      obtain ⟨report, tree⟩ := result
      have built : ∀ sealing ∈ {sealing | sealing ∈ sampleRecords.map AeadRecord.sealing},
          ∀ snapshot : Ulid, sealing.aad = snapshot.toBytes →
          ∃ manifest : Manifest, manifest.encode = .ok sealing.plaintext ∧
            (manifest.files.map FileEntry.path).Nodup := by
        intro sealing recorded snapshot sameAad
        refine ⟨sampleManifest, ?_, by decide⟩
        rw [encoding_of_sampleRecords recorded sameAad, sample_encodes]
      obtain ⟨manifest, ⟨sealing, recorded, sameAad, encoded⟩, _, each, files, _⟩ :=
        restore_correct_against_any_daemon sampleContent (fun _ stored => of_decide_eq_true stored)
          sampleRecords_coherent.inverts (sampleRecords_coherent.authentic sampleKeys.dataKey)
          built sampleContent_injective
          (fun sealing recorded id sameAad plaintext => content_of_sampleRecords recorded sameAad)
          succeeded
      refine ⟨report, tree, rfl, manifest, ?_, ?_, files⟩
      · rw [encoded, encoding_of_sampleRecords recorded sameAad]
      · intro entry inManifest
        obtain ⟨plaintexts, found, _⟩ := each entry inManifest
        exact ⟨plaintexts, found⟩

end Sample

end Busyncr.Client
