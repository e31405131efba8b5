import Busyncr.Client.BenchTree
import Busyncr.Client.MessageSize
import Busyncr.Core.DedupAccounting

/-!
The manifest size a benchmark projects, beside the manifest of a backup.

Both walkers find the same files with the same contents, but a backup puts the
name of the root in front of every path, and the benchmark does not.  So the
projection falls short by the name and a slash for every file.
-/

namespace Busyncr.Client

section Walkers

theorem utf8Bytes_append (left right : String) :
    utf8Bytes (left ++ right) = utf8Bytes left ++ utf8Bytes right := by
  rw [utf8Bytes_eq_flatMap, utf8Bytes_eq_flatMap, utf8Bytes_eq_flatMap, String.toList_append,
    List.flatMap_append]

/-- The manifest path of the parts below a root of the given name. -/
def pathBelow (name : String) (texts : List String) : String :=
  texts.foldl (fun path text => path ++ "/" ++ text) name

theorem pathBelow_append_left (front name : String) (texts : List String) :
    pathBelow (front ++ name) texts = front ++ pathBelow name texts := by
  induction texts generalizing name with
  | nil => rfl
  | cons text rest inductionHypothesis =>
      simp only [pathBelow, List.foldl_cons] at inductionHypothesis ⊢
      rw [String.append_assoc, String.append_assoc, inductionHypothesis, String.append_assoc]

/-- Joined parts are the path below the first of them. -/
theorem intercalate_eq_pathBelow (text : String) (texts : List String) :
    "/".intercalate (text :: texts) = pathBelow text texts := by
  induction texts generalizing text with
  | nil => simp [pathBelow]
  | cons next rest inductionHypothesis =>
      rw [String.intercalate_cons_cons, inductionHypothesis, ← pathBelow_append_left]
      rfl

/-- The parts of a file, in the path a backup gives it. -/
theorem pathBelow_root (name text : String) (texts : List String) :
    pathBelow name (text :: texts) = name ++ "/" ++ "/".intercalate (text :: texts) := by
  rw [intercalate_eq_pathBelow, ← pathBelow_append_left]
  rfl

/-- A file of a backup by its path and content. -/
def specKey (spec : FileSpec) : String × Bytes := (spec.rel, spec.file.content)

/-- A file of the benchmark, as a backup of a root of that name would have it. -/
def benchKey (name : String) (file : BenchFile) : String × Bytes :=
  (name ++ "/" ++ file.rel, file.content)

theorem joinWalks_cons_iff {Value : Type} {walk : FileName × Except BackupError (List Value)}
    {rest : List (FileName × Except BackupError (List Value))} {found : List Value} :
    joinWalks (walk :: rest) = .ok found ↔
      ∃ values others, walk.2 = .ok values ∧ joinWalks rest = .ok others ∧
        found = values ++ others := by
  obtain ⟨name, result⟩ := walk
  cases result with
  | error error => simp [joinWalks]
  | ok values =>
      cases onward : joinWalks rest with
      | error error => simp [joinWalks, onward]
      | ok others => simp [joinWalks, onward, eq_comm]

/-- The order of the walks only reorders what they found. -/
theorem joinWalks_perm {Value : Type}
    {walks others : List (FileName × Except BackupError (List Value))}
    (permuted : walks.Perm others) {found : List Value} (joined : joinWalks walks = .ok found) :
    ∃ values, joinWalks others = .ok values ∧ found.Perm values := by
  induction permuted generalizing found with
  | nil => exact ⟨found, joined, .refl _⟩
  | cons walk permuted inductionHypothesis =>
      obtain ⟨values, tail, walked, tailJoined, rfl⟩ := joinWalks_cons_iff.mp joined
      obtain ⟨more, moreJoined, tailPerm⟩ := inductionHypothesis tailJoined
      exact ⟨values ++ more, joinWalks_cons_iff.mpr ⟨values, more, walked, moreJoined, rfl⟩,
        tailPerm.append_left values⟩
  | swap first second rest =>
      obtain ⟨secondValues, tail, secondWalked, tailJoined, rfl⟩ := joinWalks_cons_iff.mp joined
      obtain ⟨firstValues, more, firstWalked, moreJoined, rfl⟩ := joinWalks_cons_iff.mp tailJoined
      refine ⟨firstValues ++ (secondValues ++ more), ?_, ?_⟩
      · exact joinWalks_cons_iff.mpr ⟨firstValues, _, firstWalked,
          joinWalks_cons_iff.mpr ⟨secondValues, more, secondWalked, moreJoined, rfl⟩, rfl⟩
      · exact List.perm_append_comm_assoc _ _ _
  | trans first second firstHypothesis secondHypothesis =>
      obtain ⟨middle, middleJoined, firstPerm⟩ := firstHypothesis joined
      obtain ⟨values, valuesJoined, secondPerm⟩ := secondHypothesis middleJoined
      exact ⟨values, valuesJoined, firstPerm.trans secondPerm⟩

/-- The names on the way to a node, and its path in a backup. -/
def Reached (name : String) (parts : List FileName) (rel : String) : Prop :=
  ∃ texts, (parts.mapM fun part => fromUtf8? part.bytes) = some texts ∧ rel = pathBelow name texts

theorem Reached.concat {name rel text : String} {parts : List FileName} {part : FileName}
    (reached : Reached name parts rel) (read : fromUtf8? part.bytes = some text) :
    Reached name (parts ++ [part]) (rel ++ "/" ++ text) := by
  obtain ⟨texts, decoded, rfl⟩ := reached
  refine ⟨texts ++ [text], ?_, ?_⟩
  · simp [List.mapM_append, decoded, read]
  · simp [pathBelow]

variable {IoError : Type}

mutual

/-- Below the root both walkers find the same files, under paths that differ
by the name of the root. -/
theorem walkDir_perm {name rel : String} {path : Bytes} {parts : List FileName} :
    (node : SourceNode) → {specs : List FileSpec} → {files : List BenchFile} →
      parts ≠ [] → Reached name parts rel → walkDir rel node = .ok specs →
        (benchWalk path parts node : Except (BenchError IoError) (List BenchFile)) = .ok files →
          (specs.map specKey).Perm (files.map (benchKey name))
  | .file stored, specs, files, below, reached, walked, benched => by
      obtain ⟨texts, decoded, rfl⟩ := reached
      simp only [walkDir] at walked
      cases walked
      simp only [benchWalk, relPath?, decoded, Option.map_some] at benched
      cases benched
      have nonempty : texts ≠ [] := by
        rintro rfl
        obtain ⟨part, rest, rfl⟩ := List.exists_cons_of_ne_nil below
        simp [List.mapM_cons, Option.bind_eq_some_iff] at decoded
      obtain ⟨text, rest, rfl⟩ := List.exists_cons_of_ne_nil nonempty
      simp [specKey, benchKey, pathBelow_root]
  | .dir entries, specs, files, below, reached, walked, benched => by
      simp only [walkDir] at walked
      simp only [benchWalk] at benched
      obtain ⟨values, joined, permuted⟩ := joinWalks_perm (List.mergeSort_perm _ _) walked
      exact (permuted.map _).trans (walkEntries_perm entries reached joined benched)
  | .other, specs, files, below, reached, walked, benched => by
      simp only [walkDir] at walked
      simp only [benchWalk] at benched
      cases walked
      cases benched
      rfl

theorem walkEntries_perm {name rel : String} {path : Bytes} {parts : List FileName} :
    (entries : List (FileName × SourceNode)) → {specs : List FileSpec} →
      {files : List BenchFile} → Reached name parts rel →
        joinWalks (walkEntries rel entries) = .ok specs →
          (benchEntries path parts entries : Except (BenchError IoError) (List BenchFile)) =
            .ok files → (specs.map specKey).Perm (files.map (benchKey name))
  | [], specs, files, reached, joined, benched => by
      simp only [walkEntries, joinWalks] at joined
      simp only [benchEntries] at benched
      cases joined
      cases benched
      rfl
  | (part, node) :: rest, specs, files, reached, joined, benched => by
      simp only [walkEntries] at joined
      obtain ⟨values, others, walked, onward, rfl⟩ := joinWalks_cons_iff.mp joined
      simp only at walked
      split at walked
      next => cases walked
      next text read =>
        simp only [benchEntries] at benched
        split at benched
        next => cases benched
        next found benchedNode =>
          split at benched
          next => cases benched
          next more benchedRest =>
            cases benched
            rw [List.map_append, List.map_append]
            exact (walkDir_perm node (by simp) (reached.concat read) walked benchedNode).append
              (walkEntries_perm rest reached onward benchedRest)

end

end Walkers

section Sizes

variable {cdc : Cdc} {blake3 : Blake3} {configs : List ChunkerConfig} {candidate : Nat}
  {config : ChunkerConfig}

/-- The number of chunk references of a file. -/
def piecesOf (cdc : Cdc) (config : ChunkerConfig) (content : Bytes) : Nat :=
  (cdc config content).length

/-- The manifest bytes of a file by its path and content. -/
def keyBytes (cdc : Cdc) (config : ChunkerConfig) (key : String × Bytes) : Nat :=
  manifestFileFixedBytes + (utf8Bytes key.1).length + ChunkId.len * piecesOf cdc config key.2

theorem length_metasOf (content : Bytes) :
    (metasOf cdc blake3 content config).length = piecesOf cdc config content := by
  have count : ∀ (pieces : List Bytes) (offset : Nat),
      (chunksFrom blake3 offset pieces).length = pieces.length := by
    intro pieces
    induction pieces with
    | nil => intro offset; rfl
    | cons piece rest inductionHypothesis =>
        intro offset
        simp [chunksFrom, inductionHypothesis]
  rw [metasOf, List.length_map, chunkReader, count]
  rfl

/-- What the benchmark counts for a file. -/
theorem manifestBytesOf_fanned {file : BenchFile} {chunking : FileChunking}
    (chosen : configs[candidate]? = some config)
    (fanned : FileFanned cdc blake3 configs file chunking) :
    manifestBytesOf candidate chunking = keyBytes cdc config (file.rel, file.content) := by
  obtain ⟨source, fan, content, fine, returned, rfl⟩ := fanned
  have whole := ((fanOutReturns_sound returned).success fan rfl).2
  have metas : fan.perCandidate[candidate]? = some (metasOf cdc blake3 file.content config) := by
    rw [whole, content, wholeFanOut, List.getElem?_map, chosen]
    rfl
  simp only [manifestBytesOf, metas, Option.getD_some, length_metasOf, keyBytes]

theorem sum_manifestBytesOf {files : List BenchFile} {chunkings : List FileChunking}
    (chosen : configs[candidate]? = some config)
    (fanned : List.Forall₂ (FileFanned cdc blake3 configs) files chunkings) :
    (chunkings.map (manifestBytesOf candidate)).sum =
      (files.map fun file => keyBytes cdc config (file.rel, file.content)).sum := by
  induction fanned with
  | nil => rfl
  | cons head tail inductionHypothesis =>
      simp only [List.map_cons, List.sum_cons, inductionHypothesis,
        manifestBytesOf_fanned chosen head]

/-- The name and the slash are missing once for every file. -/
theorem sum_keyBytes_benchKey (name : String) (files : List BenchFile) :
    ((files.map (benchKey name)).map (keyBytes cdc config)).sum =
      (files.map fun file => keyBytes cdc config (file.rel, file.content)).sum +
        files.length * ((utf8Bytes name).length + 1) := by
  induction files with
  | nil => simp
  | cons file rest inductionHypothesis =>
      have slash : (utf8Bytes "/").length = 1 := by decide
      have path : (utf8Bytes (name ++ "/" ++ file.rel)).length =
          (utf8Bytes name).length + 1 + (utf8Bytes file.rel).length := by
        rw [utf8Bytes_append, utf8Bytes_append, List.length_append, List.length_append, slash]
      simp only [List.map_cons, List.sum_cons, inductionHypothesis, List.length_cons, benchKey,
        keyBytes, path]
      ring

/-- The manifest bytes of the entries of a backup. -/
theorem sum_keyBytes_specKey {chunker : Bytes → Option (List Bytes)}
    (same : ∀ content, chunker content = some (cdc config content)) (specs : List FileSpec) :
    entryBytes specs + 32 * referenceCount chunker specs =
      ((specs.map specKey).map (keyBytes cdc config)).sum := by
  induction specs with
  | nil => rfl
  | cons spec rest inductionHypothesis =>
      simp only [entryBytes, referenceCount, List.map_cons, List.sum_cons, specKey, keyBytes,
        piecesOf, same, Option.getD_some, ChunkId.len] at inductionHypothesis ⊢
      omega

end Sizes

mutual

/-- A regular file is at the node or below it. -/
def SourceNode.hasFile : SourceNode → Bool
  | .file _ => true
  | .dir entries => entriesHaveFile entries
  | .other => false

def entriesHaveFile : List (FileName × SourceNode) → Bool
  | [] => false
  | (_, node) :: rest => node.hasFile || entriesHaveFile rest

end

section Presence

variable {IoError : Type}

mutual

theorem benchWalk_eq_nil_iff {path : Bytes} {parts : List FileName} :
    (node : SourceNode) → {files : List BenchFile} →
      (benchWalk path parts node : Except (BenchError IoError) (List BenchFile)) = .ok files →
        (files = [] ↔ node.hasFile = false)
  | .file stored, files, benched => by
      simp only [benchWalk] at benched
      split at benched
      next => cases benched
      next =>
        cases benched
        simp [SourceNode.hasFile]
  | .dir entries, files, benched => by
      simp only [benchWalk] at benched
      simpa only [SourceNode.hasFile] using benchEntries_eq_nil_iff entries benched
  | .other, files, benched => by
      simp only [benchWalk] at benched
      cases benched
      simp [SourceNode.hasFile]

theorem benchEntries_eq_nil_iff {path : Bytes} {parts : List FileName} :
    (entries : List (FileName × SourceNode)) → {files : List BenchFile} →
      (benchEntries path parts entries : Except (BenchError IoError) (List BenchFile)) = .ok files →
        (files = [] ↔ entriesHaveFile entries = false)
  | [], files, benched => by
      simp only [benchEntries] at benched
      cases benched
      simp [entriesHaveFile]
  | (name, node) :: rest, files, benched => by
      simp only [benchEntries] at benched
      split at benched
      next => cases benched
      next found benchedNode =>
        split at benched
        next => cases benched
        next more benchedRest =>
          cases benched
          rw [List.append_eq_nil_iff, benchWalk_eq_nil_iff node benchedNode,
            benchEntries_eq_nil_iff rest benchedRest]
          simp [entriesHaveFile]

end

/-- The files of a tree, before they are put in order. -/
theorem exists_entries_of_benchFilesOf {root : Root} {files : List BenchFile}
    (found : (benchFilesOf root : Except (BenchError IoError) (List BenchFile)) = .ok files) :
    ∃ entries listed, root.node = some (.dir entries) ∧
      (benchEntries root.path [] entries : Except (BenchError IoError) (List BenchFile)) =
        .ok listed ∧ files.Perm listed := by
  unfold benchFilesOf at found
  split at found
  next entries directory =>
    split at found
    next => cases found
    next listed walked =>
      cases found
      exact ⟨entries, listed, directory, walked, List.mergeSort_perm _ _⟩
  next => cases found

end Presence

section Projection

variable {Threshold : Type}

/-- The backup gets as far as encoding this manifest. -/
def Builds (libraries : Libraries) (tests : LengthTests Threshold) (keys : KeyPair)
    (nonces : Nat → Nonce) (peer : BackupPeer) (state : peer.State)
    (request : BackupRequest Threshold) (encoded : Bytes) : Prop :=
  ∃ existing next specs files run,
    peer.listSnapshots state = (.ok existing, next) ∧
    collectFiles request.roots = .ok specs ∧
    captureFiles (contextOf libraries tests keys nonces request existing) request.chunker specs
      (.start next request.snapshotId) = .ok (files, run) ∧
    Manifest.encode ⟨request.snapshotId, request.createdAt, files⟩ = .ok encoded

variable {libraries : Libraries} {tests : LengthTests Threshold} {keys : KeyPair}
  {nonces : Nat → Nonce} {peer : BackupPeer} {state : peer.State}
  {request : BackupRequest Threshold} {encoded : Bytes} {cdc : Cdc} {blake3 : Blake3}
  {config : ChunkerConfig} {root : Root}

/-- The files of a backup of one root, beside those of the benchmark. -/
theorem specs_perm {IoError : Type} {specs : List FileSpec} {files : List BenchFile}
    (collected : collectFiles [root] = .ok specs)
    (found : (benchFilesOf root : Except (BenchError IoError) (List BenchFile)) = .ok files) :
    ∃ name, (specs.map specKey).Perm (files.map (benchKey name)) := by
  obtain ⟨entries, listed, directory, walked, permuted⟩ := exists_entries_of_benchFilesOf found
  simp only [collectFiles, collectRoots] at collected
  split at collected
  next => cases collected
  next name node named =>
    simp only [List.not_mem_nil, if_false] at collected
    split at collected
    next => cases collected
    next only walkedDir =>
      cases collected
      have same : node = .dir entries := by
        unfold rootName at named
        rw [directory] at named
        simp only at named
        split at named <;> cases named
        rfl
      subst same
      refine ⟨name, ?_⟩
      simp only [walkDir] at walkedDir
      obtain ⟨values, joined, reordered⟩ := joinWalks_perm (List.mergeSort_perm _ _) walkedDir
      have reached : Reached name [] name := ⟨[], rfl, rfl⟩
      rw [List.append_nil]
      exact (reordered.map _).trans
        ((walkEntries_perm entries reached joined walked).trans (permuted.map _).symm)

/-- The length of a backup's manifest, from the benchmark's files. -/
theorem length_of_builds {IoError : Type} (single : request.roots = [root])
    (sameChunker : ∀ content, request.chunker content = some (cdc config content))
    (built : Builds libraries tests keys nonces peer state request encoded)
    {files : List BenchFile}
    (found : (benchFilesOf root : Except (BenchError IoError) (List BenchFile)) = .ok files) :
    ∃ name : String, encoded.length = manifestHeaderBytes +
      (files.map fun file => keyBytes cdc config (file.rel, file.content)).sum +
        files.length * ((utf8Bytes name).length + 1) := by
  obtain ⟨existing, next, specs, entries, run, -, collected, captured, encodedOk⟩ := built
  rw [single] at collected
  obtain ⟨name, permuted⟩ := specs_perm collected found
  refine ⟨name, ?_⟩
  have length := Manifest.length_encode encodedOk
  rw [Manifest.encodedLen,
    (manifest_sizes (entries_of_captureFiles captured) manifestHeaderBytes).2, Nat.add_assoc,
    sum_keyBytes_specKey sameChunker, (permuted.map _).sum_nat, sum_keyBytes_benchKey] at length
  omega

/-- The projection is the length of the manifest exactly when the tree has no
regular file. -/
theorem manifest_projection_exact_iff {IoError : Type} {configs : List ChunkerConfig}
    {chunkings : List FileChunking} {label : String} {snapshots : UInt64}
    {baseline : Option (String × List FileChunking)} {report : BenchReport} {candidate : Nat}
    {measured : CandidateReport} (single : request.roots = [root])
    (sameChunker : ∀ content, request.chunker content = some (cdc config content))
    (built : Builds libraries tests keys nonces peer state request encoded)
    (chunked : ChunkTreeReturns cdc blake3 root configs
      (.ok chunkings : Except (BenchError IoError) (List FileChunking)))
    (reported : (buildReport label chunkings configs snapshots baseline :
      Option (Except (BenchError IoError) BenchReport)) = some (.ok report))
    (chosen : configs[candidate]? = some config)
    (listed : report.candidates[candidate]? = some measured) :
    measured.manifestBytesPerSnapshot.toNat = encoded.length ↔
      root.node.any SourceNode.hasFile = false := by
  unfold ChunkTreeReturns at chunked
  split at chunked
  next => cases chunked
  next files found =>
    obtain ⟨_, fanned, same⟩ := chunked
    cases same
    obtain ⟨name, length⟩ := length_of_builds single sameChunker built found
    obtain ⟨other, tally, ids, median, p95, -, ran, rfl⟩ := figures_of_buildReport reported listed
    have projected : (tally.figures other snapshots ids median p95).manifestBytesPerSnapshot =
        UInt64.ofNat (manifestHeaderBytes +
          (files.map fun file => keyBytes cdc config (file.rel, file.content)).sum) := by
      rw [UInt64.ofNat_add, ← sum_manifestBytesOf chosen fanned]
      exact Busyncr.Tally.manifestBytes_addFiles ran
    obtain ⟨entries, walked, directory, benched, permuted⟩ := exists_entries_of_benchFilesOf found
    have empty : files = [] ↔ root.node.any SourceNode.hasFile = false := by
      rw [directory, Option.any_some, SourceNode.hasFile, ← benchEntries_eq_nil_iff entries benched,
        ← List.length_eq_zero_iff, permuted.length_eq, List.length_eq_zero_iff]
    rw [projected, length, UInt64.toNat_ofNat', ← empty]
    constructor
    · intro exactly
      by_contra nonempty
      have missing : 0 < files.length * ((utf8Bytes name).length + 1) :=
        Nat.mul_pos (List.length_pos_iff.mpr nonempty) (Nat.succ_pos _)
      have wrapped := Nat.mod_le (manifestHeaderBytes +
        (files.map fun file => keyBytes cdc config (file.rel, file.content)).sum) (2 ^ 64)
      omega
    · rintro rfl
      simp [manifestHeaderBytes]

end Projection

section Sample

/-- The folder `/d` with the given entries. -/
def folderRoot (entries : List (FileName × SourceNode)) : Root where
  path := utf8Bytes "/d"
  fileName := some folderName
  node := some (.dir entries)

def folderRequest (entries : List (FileName × SourceNode)) : BackupRequest Unit where
  roots := [folderRoot entries]
  chunker content := some (wholeCdc benchConfig content)
  compression := ⟨false, false, 3, 9, (), (), ()⟩
  snapshotId := .fromParts 1 0
  createdAt := 5

/-- One empty file, named `f`. -/
def emptyFileEntries : List (FileName × SourceNode) :=
  [(leafName, .file ⟨[], none, 33188⟩)]

def emptyFileSpec : FileSpec := ⟨⟨[], none, 33188⟩, "d" ++ "/" ++ "f"⟩

theorem collectFiles_emptyFolder : collectFiles (folderRequest []).roots = .ok [] := by
  simp [collectFiles, collectRoots, folderRequest, folderRoot, rootName, walkDir, walkEntries,
    nameOrder, joinWalks]

theorem collectFiles_emptyFile :
    collectFiles (folderRequest emptyFileEntries).roots = .ok [emptyFileSpec] := by
  simp [collectFiles, collectRoots, folderRequest, folderRoot, rootName, walkDir, walkEntries,
    nameOrder, joinWalks, emptyFileEntries, emptyFileSpec]

/-- A backup of either folder builds its manifest. -/
theorem exists_builds_folder {entries : List (FileName × SourceNode)} {specs : List FileSpec}
    (collected : collectFiles (folderRequest entries).roots = .ok specs)
    (few : specs = [] ∨ specs = [emptyFileSpec]) :
    ∃ encoded, Builds zeroLibraries zeroTests zeroKeys zeroNonces holdingPeer ()
        (folderRequest entries) encoded ∧
      encoded.length = manifestHeaderBytes + entryBytes specs := by
  obtain ⟨context, contextIs⟩ : ∃ context, context =
      contextOf zeroLibraries zeroTests zeroKeys zeroNonces (folderRequest entries) [] :=
    ⟨_, rfl⟩
  obtain ⟨files, run, captured, filesAre⟩ : ∃ files run,
      captureFiles context (folderRequest entries).chunker specs
        (.start () (folderRequest entries).snapshotId : BackupRun holdingPeer) = .ok (files, run) ∧
      files = specs.map fun spec => entryOf context spec [] := by
    obtain rfl | rfl := few
    · exact ⟨[], _, rfl, rfl⟩
    · have uncut : (folderRequest entries).chunker emptyFileSpec.file.content = some [] := by
        simp [folderRequest, wholeCdc, emptyFileSpec]
      obtain ⟨run, captured⟩ := exists_captureFiles_holdingPeer context uncut (.start () _)
      exact ⟨_, run, captured, rfl⟩
  have path : (utf8Bytes "d/f").length = 3 := by decide
  have encodable : Manifest.Fits ⟨(folderRequest entries).snapshotId,
      (folderRequest entries).createdAt, files⟩ := by
    rw [filesAre]
    obtain rfl | rfl := few
    · exact ⟨by simp, by simp⟩
    · refine ⟨by simp, ?_⟩
      intro file listed
      obtain rfl := List.mem_singleton.mp listed
      simp [entryOf, emptyFileSpec, path]
  obtain ⟨encoded, encodedOk⟩ := Manifest.encode_succeeds_iff.mpr encodable
  have length := Manifest.length_encode encodedOk
  subst contextIs
  refine ⟨encoded, ⟨[], (), specs, files, run, rfl, collected, captured, encodedOk⟩, ?_⟩
  rw [length, Manifest.encodedLen, filesAre]
  obtain rfl | rfl := few
  · rfl
  · simp [entryBytes, entryOf, emptyFileSpec, path, manifestHeaderBytes, manifestFileFixedBytes]

/-- The report on files that have no chunks. -/
theorem exists_buildReport_unchunked {chunkings : List FileChunking} {tally : Busyncr.Tally}
    (counted : OneResultPerConfig chunkings [benchConfig])
    (ran : Busyncr.Tally.start.addFiles 0 chunkings = some tally) (unchunked : tally.lens = []) :
    ∃ report, (buildReport "/d" chunkings [benchConfig] 36 none :
        Option (Except (BenchError Unit) BenchReport)) = some (.ok report) ∧
      report.candidates[0]? = some (tally.figures benchConfig 36 none 0 0) := by
  have figures : candidateReport benchConfig 36 tally none =
      some (tally.figures benchConfig 36 none 0 0) := by
    simp [candidateReport, unchunked, sortLens, nearestRank]
  simp only [buildReport, checkCandidateCounts_ok counted, checkBaseline, measureCandidates,
    measureCandidate, ran, baselineIds, figures]
  exact ⟨_, rfl, rfl⟩

theorem manifest_of_empty_folder_is_projected :
    ∃ encoded report measured,
      Builds zeroLibraries zeroTests zeroKeys zeroNonces holdingPeer () (folderRequest [])
        encoded ∧
      (buildReport "/d" [] [benchConfig] 36 none :
        Option (Except (BenchError Unit) BenchReport)) = some (.ok report) ∧
      report.candidates[0]? = some measured ∧
      measured.manifestBytesPerSnapshot.toNat = encoded.length := by
  obtain ⟨encoded, built, -⟩ := exists_builds_folder collectFiles_emptyFolder (.inl rfl)
  have chunked : ChunkTreeReturns wholeCdc Blake3.onEmpty (folderRoot []) [benchConfig]
      (.ok [] : Except (BenchError Unit) (List FileChunking)) := by
    simp [ChunkTreeReturns, benchFilesOf, folderRoot, benchEntries, relOrder]
  have counted : OneResultPerConfig [] [benchConfig] := by
    simp [OneResultPerConfig]
  obtain ⟨report, reported, listed⟩ := exists_buildReport_unchunked counted rfl rfl
  refine ⟨encoded, report, _, built, reported, listed, ?_⟩
  rw [manifest_projection_exact_iff rfl (fun _ => rfl) built chunked reported rfl listed]
  rfl

/-- The projection for a folder with one empty file misses the name of the
folder and the slash. -/
theorem projection_of_one_file_is_short :
    ∃ encoded chunkings report measured,
      Builds zeroLibraries zeroTests zeroKeys zeroNonces holdingPeer ()
        (folderRequest emptyFileEntries) encoded ∧
      ChunkTreeReturns wholeCdc Blake3.onEmpty (folderRoot emptyFileEntries) [benchConfig]
        (.ok chunkings : Except (BenchError Unit) (List FileChunking)) ∧
      (buildReport "/d" chunkings [benchConfig] 36 none :
        Option (Except (BenchError Unit) BenchReport)) = some (.ok report) ∧
      report.candidates[0]? = some measured ∧
      measured.manifestBytesPerSnapshot.toNat = 61 ∧ encoded.length = 63 := by
  obtain ⟨encoded, built, length⟩ := exists_builds_folder collectFiles_emptyFile (.inr rfl)
  have fanned : FileFanned wholeCdc Blake3.onEmpty [benchConfig]
      ⟨"f", utf8Bytes "/d/f", []⟩ ⟨"f", 0, [[]]⟩ :=
    ⟨⟨[], none⟩, ⟨[[]], 0⟩, rfl, rfl, fanOutReturns_empty benchConfig, rfl⟩
  have chunked : ChunkTreeReturns wholeCdc Blake3.onEmpty (folderRoot emptyFileEntries)
      [benchConfig] (.ok [⟨"f", 0, [[]]⟩] : Except (BenchError Unit) (List FileChunking)) := by
    have found : (benchFilesOf (folderRoot emptyFileEntries) :
        Except (BenchError Unit) (List BenchFile)) = .ok [⟨"f", utf8Bytes "/d/f", []⟩] := by
      have path : utf8Bytes "/d" ++ 0x2f :: utf8Bytes "f" = utf8Bytes "/d/f" := by decide
      simp [benchFilesOf, folderRoot, emptyFileEntries, benchEntries, benchWalk, relPath?,
        relOrder, path]
    simp only [ChunkTreeReturns, found]
    exact ⟨_, .cons fanned .nil, rfl⟩
  have counted : OneResultPerConfig [⟨"f", 0, [[]]⟩] [benchConfig] := by
    simp [OneResultPerConfig]
  obtain ⟨report, reported, listed⟩ := exists_buildReport_unchunked counted rfl rfl
  refine ⟨encoded, _, report, _, built, chunked, reported, listed, by decide, ?_⟩
  rw [length]
  decide

end Sample

end Busyncr.Client
