import Busyncr.Client.Progress
import Busyncr.Client.RoundTrip

/-!
The size of the `PutManifest` request: the sealed manifest and every chunk
reference once more, in the framing of protobuf.

A reference costs 32 bytes in the manifest and 34 in the list beside it, so
the limit on messages is reached at half the references the manifest alone
would allow.
-/

namespace Busyncr.Client

/-- The upper bound on a message in either direction. -/
def maxMessageSize : Nat := 32 * 1024 * 1024

/-- The bytes of a 64-bit number written seven bits a byte. -/
def varintLen (value : Nat) : Nat :=
  if value < 2 ^ 7 then 1
  else if value < 2 ^ 14 then 2
  else if value < 2 ^ 21 then 3
  else if value < 2 ^ 28 then 4
  else if value < 2 ^ 35 then 5
  else if value < 2 ^ 42 then 6
  else if value < 2 ^ 49 then 7
  else if value < 2 ^ 56 then 8
  else if value < 2 ^ 63 then 9
  else 10

/-- A length-delimited field: its tag, its length and its bytes. -/
def bytesFieldLen (bytes : Bytes) : Nat := 1 + varintLen bytes.length + bytes.length

/-- A field that is left out when it is empty. -/
def singularFieldLen (bytes : Bytes) : Nat := if bytes = [] then 0 else bytesFieldLen bytes

/-- The encoded length of a `PutManifest` request. -/
def putManifestLen (request : Daemon.PutManifestRequest) : Nat :=
  singularFieldLen request.manifest + singularFieldLen request.snapshotId +
    (request.chunkIds.map bytesFieldLen).sum

/-- The bytes of the file entries apart from their chunk IDs. -/
def entryBytes (specs : List FileSpec) : Nat :=
  (specs.map fun spec => manifestFileFixedBytes + (utf8Bytes spec.rel).length).sum

/-- How many chunks the files are cut into, counted with repetitions. -/
def referenceCount (chunker : Bytes → Option (List Bytes)) (specs : List FileSpec) : Nat :=
  (specs.map fun spec => ((chunker spec.file.content).getD []).length).sum

section Sending

variable {Threshold : Type} (libraries : Libraries) (tests : LengthTests Threshold)
  (keys : KeyPair) (nonces : Nat → Nonce)

/-- The backup uploads all its chunks and then puts this request. -/
def Sends (peer : BackupPeer) (state : peer.State) (request : BackupRequest Threshold)
    (session : Session peer) (put : Daemon.PutManifestRequest) : Prop :=
  ∃ existing next specs files run encoded sealedBlob,
    peer.listSnapshots state = (.ok existing, next) ∧
    collectFiles request.roots = .ok specs ∧
    captureFiles (contextOf libraries tests keys nonces request existing) request.chunker specs
      (.start next request.snapshotId) = .ok (files, run) ∧
    flush (contextOf libraries tests keys nonces request existing) run.pending run.session =
      .ok session ∧
    Manifest.encode ⟨request.snapshotId, request.createdAt, files⟩ = .ok encoded ∧
    encryptManifest libraries.aead keys.dataKey request.snapshotId encoded
      (nonces session.drawn) = .ok sealedBlob ∧
    put = ⟨sealedBlob, request.snapshotId.toBytes,
      (Manifest.chunkRefs ⟨request.snapshotId, request.createdAt, files⟩).map ChunkId.asBytes⟩

variable {libraries tests keys nonces}

/-- The outcome of the backup is the daemon's answer to the request. -/
theorem runBackup_of_sends {peer : BackupPeer} {state : peer.State}
    {request : BackupRequest Threshold} {session : Session peer}
    {put : Daemon.PutManifestRequest}
    (sends : Sends libraries tests keys nonces peer state request session put) :
    (∀ status refusedState, peer.putManifest session.state put = (.error status, refusedState) →
      runBackup libraries tests keys nonces peer state request = .error (.rpc status)) ∧
    ∀ final, peer.putManifest session.state put = (.ok (), final) →
      ∃ report, runBackup libraries tests keys nonces peer state request =
        .ok (report, final) := by
  obtain ⟨existing, next, specs, files, run, encoded, sealedBlob, listed, collected, captured,
    flushed, encodedOk, sealedOk, rfl⟩ := sends
  simp only [contextOf, BackupRun.start] at captured flushed
  constructor
  · intro status refusedState refused
    simp only [runBackup, listed, collected, captured, flushed, commitManifest, encodedOk,
      sealedOk, refused]
  · intro final accepted
    simp only [runBackup, listed, collected, captured, flushed, commitManifest, encodedOk,
      sealedOk, accepted]
    exact ⟨_, rfl⟩

/-- Every captured file became the entry of its chunks. -/
theorem entries_of_captureFiles {context : BackupContext Threshold} {peer : BackupPeer}
    {chunker : Bytes → Option (List Bytes)} {specs : List FileSpec} {files : List FileEntry}
    {run next : BackupRun peer}
    (captured : captureFiles context chunker specs run = .ok (files, next)) :
    List.Forall₂ (fun spec entry => ∃ chunks, chunker spec.file.content = some chunks ∧
      entry = entryOf context spec chunks) specs files := by
  induction specs generalizing run files with
  | nil =>
      cases captured
      exact .nil
  | cons spec rest inductionHypothesis =>
      simp only [captureFiles] at captured
      split at captured
      next => cases captured
      next entry middle capturedFirst =>
        split at captured
        next => cases captured
        next others final capturedRest =>
          cases captured
          obtain ⟨chunks, taken, cut, _, equal, _⟩ := exists_chunks_of_captureFile capturedFirst
          exact .cons ⟨chunks, cut, equal⟩ (inductionHypothesis capturedRest)

/-- The sizes of the manifest, read off the files and their cuts. -/
theorem manifest_sizes {context : BackupContext Threshold}
    {chunker : Bytes → Option (List Bytes)} {specs : List FileSpec} {files : List FileEntry}
    (entries : List.Forall₂ (fun spec entry => ∃ chunks,
      chunker spec.file.content = some chunks ∧ entry = entryOf context spec chunks) specs files)
    (start : Nat) :
    (files.flatMap FileEntry.chunks).length = referenceCount chunker specs ∧
      files.foldl (fun total file => total + (manifestFileFixedBytes +
        (utf8Bytes file.path).length + ChunkId.len * file.chunks.length)) start =
          start + entryBytes specs + 32 * referenceCount chunker specs := by
  induction entries generalizing start with
  | nil => simp [referenceCount, entryBytes]
  | @cons spec entry restSpecs restFiles head tail inductionHypothesis =>
      obtain ⟨chunks, cut, rfl⟩ := head
      have count : referenceCount chunker (spec :: restSpecs) =
          chunks.length + referenceCount chunker restSpecs := by
        simp [referenceCount, cut]
      have bytes : entryBytes (spec :: restSpecs) =
          manifestFileFixedBytes + (utf8Bytes spec.rel).length + entryBytes restSpecs := by
        simp [entryBytes]
      have width : (entryOf context spec chunks).chunks.length = chunks.length := by
        simp [entryOf]
      have path : (entryOf context spec chunks).path = spec.rel := rfl
      constructor
      · rw [List.flatMap_cons, List.length_append, (inductionHypothesis start).1, width, count]
      · rw [List.foldl_cons, (inductionHypothesis _).2, width, path, count, bytes]
        simp only [ChunkId.len]
        ring

end Sending

theorem sum_bytesFieldLen_asBytes (ids : List ChunkId) :
    ((ids.map ChunkId.asBytes).map bytesFieldLen).sum = 34 * ids.length := by
  induction ids with
  | nil => rfl
  | cons id rest inductionHypothesis =>
      have single : bytesFieldLen id.asBytes = 34 := by
        simp [bytesFieldLen, varintLen]
      simp only [List.map_cons, List.sum_cons, single, inductionHypothesis, List.length_cons]
      ring

/-- The length of a request, from the length of its blob and the number of
its references. -/
theorem putManifestLen_eq {blob : Bytes} (nonempty : blob ≠ []) (snapshot : Ulid)
    (ids : List ChunkId) :
    putManifestLen ⟨blob, snapshot.toBytes, ids.map ChunkId.asBytes⟩ =
      1 + varintLen blob.length + blob.length + 18 + 34 * ids.length := by
  have width : snapshot.toBytes.length = 16 := snapshot.length_toBytes
  have present : snapshot.toBytes ≠ [] := by
    intro empty
    rw [empty] at width
    cases width
  simp only [putManifestLen, singularFieldLen, if_neg nonempty, if_neg present, bytesFieldLen,
    width, sum_bytesFieldLen_asBytes]
  rfl

/-- The framing of the blob does not move the limit. -/
theorem fits_iff {entries references : Nat} :
    1 + varintLen (68 + entries + 32 * references) + (68 + entries + 32 * references) + 18 +
        34 * references ≤ maxMessageSize ↔
      entries + 66 * references ≤ 33554341 := by
  unfold varintLen maxMessageSize
  split_ifs <;> omega

section Limit

variable {Threshold : Type} {libraries : Libraries} {tests : LengthTests Threshold}
  {keys : KeyPair} {nonces : Nat → Nonce} {peer : BackupPeer} {state : peer.State}
  {request : BackupRequest Threshold} {session : Session peer} {put : Daemon.PutManifestRequest}
  {specs : List FileSpec}

/-- The length of the request a backup sends. -/
theorem putManifestLen_of_sends (lengthens : libraries.aead.Lengthens)
    (collected : collectFiles request.roots = .ok specs)
    (sends : Sends libraries tests keys nonces peer state request session put) :
    putManifestLen put =
      1 + varintLen (68 + entryBytes specs + 32 * referenceCount request.chunker specs) +
        (68 + entryBytes specs + 32 * referenceCount request.chunker specs) + 18 +
        34 * referenceCount request.chunker specs := by
  obtain ⟨existing, next, found, files, run, encoded, sealedBlob, _, collectedFound, captured,
    _, encodedOk, sealedOk, rfl⟩ := sends
  rw [collected] at collectedFound
  cases collectedFound
  obtain ⟨references, length⟩ :=
    manifest_sizes (entries_of_captureFiles captured) manifestHeaderBytes
  have encodedLength := Manifest.length_encode encodedOk
  rw [Manifest.encodedLen, length] at encodedLength
  have blobLength : sealedBlob.length =
      68 + entryBytes specs + 32 * referenceCount request.chunker specs := by
    rw [length_encryptManifest lengthens sealedOk, encodedLength]
    simp only [manifestHeaderBytes, blobOverhead, nonceLen, tagLen]
    omega
  have nonempty : sealedBlob ≠ [] := by
    rintro rfl
    simp only [List.length_nil] at blobLength
    omega
  rw [putManifestLen_eq nonempty, blobLength, Manifest.chunkRefs, references]

/-- A manifest can be put exactly while 66 bytes a reference and the file
entries stay below the limit. -/
theorem manifest_request_fits_iff (lengthens : libraries.aead.Lengthens)
    (collected : collectFiles request.roots = .ok specs)
    (sends : Sends libraries tests keys nonces peer state request session put) :
    putManifestLen put ≤ maxMessageSize ↔
      entryBytes specs + 66 * referenceCount request.chunker specs ≤ 33554341 := by
  rw [putManifestLen_of_sends lengthens collected sends, fits_iff]

end Limit

section Sample

/-- A file of zeros as the default chunker cuts it: chunks of the maximal
size. -/
def zeroChunk : Bytes := List.replicate (4 * 1024 * 1024) 0

def zeroChunker (content : Bytes) : Option (List Bytes) :=
  some (List.replicate (content.length / (4 * 1024 * 1024)) zeroChunk)

/-- The name `d` of the folder. -/
def folderName : FileName := ⟨[0x64], by decide, by decide, by decide, by decide⟩

/-- The name `f` of the file. -/
def leafName : FileName := ⟨[0x66], by decide, by decide, by decide, by decide⟩

@[simp] theorem bytes_folderName : folderName.bytes = utf8Bytes "d" := by decide

@[simp] theorem bytes_leafName : leafName.bytes = utf8Bytes "f" := by decide

/-- A backup of one file of that many maximal chunks of zeros. -/
def zeroRequest (count : Nat) : BackupRequest Unit where
  roots :=
    [{ path := utf8Bytes "/d"
       fileName := some folderName
       node := some (.dir
        [(leafName, .file ⟨List.replicate (count * (4 * 1024 * 1024)) 0, none, 33188⟩)]) }]
  chunker := zeroChunker
  compression := ⟨false, false, 3, 9, (), (), ()⟩
  snapshotId := .fromParts 1 0
  createdAt := 5

/-- The ID of a maximal chunk of zeros under the zero key. -/
def zeroId : ChunkId :=
  ⟨#v[0x27, 0x4d, 0x3e, 0xa0, 0x1f, 0x74, 0xfc, 0x3a, 0xc5, 0x41,
    0x10, 0x02, 0x73, 0x8e, 0x9a, 0x11, 0xc8, 0xb9, 0xd5, 0xc0, 0x45, 0x57, 0xb2, 0xe2,
    0x94, 0x4d, 0x01, 0x88, 0x46, 0x6c, 0x72, 0x18]⟩

/-- BLAKE3 where every keyed input is a maximal chunk of zeros, under the zero
key, and a cipher with the lengths of XChaCha20-Poly1305. -/
def zeroLibraries : Libraries where
  blake3 := { hash := Blake3.onEmpty.hash, keyedHash := fun _ _ => zeroId.raw }
  aead :=
    { encrypt := fun _ _ _ msg => some (msg ++ List.replicate tagLen 0)
      decrypt := fun _ _ _ ciphertext => some (ciphertext.take (ciphertext.length - tagLen)) }
  compressors := ⟨fun _ _ => none, fun _ => none, List.length⟩

/-- A daemon that already holds every chunk it is asked about. -/
def holdingPeer : BackupPeer where
  State := Unit
  listSnapshots state := (.ok [], state)
  hasChunks state _ := (.ok [], state)
  uploadChunks state blobs := (.ok ⟨UInt64.ofNat blobs.length, 0⟩, state)
  putManifest state _ := (.ok (), state)

def zeroKeys : KeyPair := ⟨⟨.replicate 32 0⟩, ⟨.replicate 32 0⟩⟩

def zeroTests : LengthTests Unit :=
  ⟨fun _ _ _ => false, fun _ _ _ => false, fun _ _ _ => false⟩

def zeroNonces (_ : Nat) : Nonce := .replicate 24 0

/-- The manifest of a file of three such chunks. -/
def smallManifest : Manifest :=
  ⟨.fromParts 1 0, 5, [⟨"d/f", 12582912, 0, 0, 33188, [zeroId, zeroId, zeroId]⟩]⟩

def smallEncoding : Bytes := smallManifest.encode.toOption.getD []

/-- The manifest, as XChaCha20-Poly1305 seals it. -/
def smallRecords : List AeadRecord :=
  [{ key := zeroKeys.dataKey
     sealing := ⟨(Ulid.fromParts 1 0).toBytes, smallEncoding, .replicate 24 0⟩
     ciphertext := [0x78, 0x9e, 0x96, 0x89, 0xe5, 0x21, 0x8d, 0x7f, 0xd9, 0xe1, 0xf3, 0xc5,
        0xb5, 0x34, 0x1f, 0x48, 0xea, 0x18, 0xa1, 0x3e, 0x41, 0x89, 0x98, 0xad,
        0xdb, 0xdd, 0x97, 0xa3, 0x6a, 0x3a, 0x98, 0x7f, 0xea, 0xad, 0x8a, 0xd5,
        0xc1, 0x83, 0x3b, 0xfe, 0xd1, 0xaf, 0x49, 0x75, 0x0c, 0x0f, 0x1f, 0xf2,
        0x9c, 0x41, 0x74, 0xa0, 0x5b, 0x11, 0x9a, 0x07, 0x28, 0xe8, 0x33, 0x3b,
        0x12, 0xe0, 0xc0, 0xd9, 0xe9, 0xa0, 0xbe, 0xff, 0x67, 0xb6, 0x4a, 0x6c,
        0x95, 0x8c, 0x26, 0x93, 0x45, 0x42, 0xed, 0xf3, 0x1b, 0xab, 0x57, 0x86,
        0x65, 0x98, 0x36, 0x13, 0xba, 0x79, 0x70, 0x9a, 0x06, 0x60, 0x37, 0x82,
        0xd1, 0x80, 0x93, 0xf8, 0x0c, 0x16, 0x14, 0x95, 0xfa, 0x49, 0x0b, 0xba,
        0x19, 0x86, 0x5e, 0x24, 0x96, 0x46, 0x92, 0x7a, 0x20, 0x3b, 0xcf, 0x83,
        0x87, 0xa4, 0x09, 0x21, 0xb2, 0xb6, 0xce, 0xe0, 0x64, 0x2a, 0xdd, 0x90,
        0x34, 0x53, 0x21, 0x94, 0x62, 0xbc, 0x83, 0x28, 0x83, 0xed, 0x9a, 0x55,
        0x39, 0xe2, 0xc9, 0x4a, 0x59, 0x06, 0x29, 0x1b, 0x4d, 0x8e, 0x72, 0x68,
        0x55, 0x06, 0xa6, 0x42, 0xe7, 0x9e, 0xb9, 0x5f, 0x24, 0xba, 0xdf, 0x0f,
        0x85, 0x23, 0x48, 0xc4, 0xc8, 0xe0, 0xdf] }]

def smallLibraries : Libraries := { zeroLibraries with aead := .ofRecords smallRecords }

variable {Threshold : Type} (context : BackupContext Threshold)

theorem sealMissing_nothing {peer : BackupPeer} (pending : Pending) (session : Session peer) :
    ∃ next, sealMissing context [] pending session = .ok ([], next) := by
  induction pending generalizing session with
  | nil => exact ⟨session, rfl⟩
  | cons entry rest inductionHypothesis =>
      obtain ⟨id, data⟩ := entry
      simpa [sealMissing] using inductionHypothesis _

/-- A daemon that lacks nothing lets every flush and every chunk through. -/
theorem exists_flush_holdingPeer (pending : Pending) (session : Session holdingPeer) :
    ∃ next, flush context pending session = .ok next := by
  by_cases none : pending = []
  · exact ⟨session, by simp [flush, none]⟩
  · obtain ⟨next, nothing⟩ : ∃ next, sealMissing context [] pending session = .ok ([], next) :=
      sealMissing_nothing context pending session
    have asked : holdingPeer.hasChunks session.state (pending.map fun entry => entry.1.asBytes) =
        (.ok [], session.state) := rfl
    exact ⟨next, by simp [flush, none, asked, parseMissing, nothing, upload]⟩

theorem exists_takeChunk_holdingPeer (run : BackupRun holdingPeer) (data : Bytes) :
    ∃ next, takeChunk context run data = .ok next := by
  unfold takeChunk
  dsimp only
  split
  next => exact ⟨_, rfl⟩
  next =>
    split
    next =>
      split
      next error failed =>
        obtain ⟨next, flushed⟩ := exists_flush_holdingPeer context _ _
        rw [flushed] at failed
        cases failed
      next flushed _ => exact ⟨_, rfl⟩
    next => exact ⟨_, rfl⟩

theorem exists_takeChunks_holdingPeer (chunks : List Bytes) (run : BackupRun holdingPeer) :
    ∃ next, takeChunks context chunks run = .ok next := by
  induction chunks generalizing run with
  | nil => exact ⟨run, rfl⟩
  | cons data rest inductionHypothesis =>
      obtain ⟨middle, taken⟩ := exists_takeChunk_holdingPeer context run data
      obtain ⟨next, onward⟩ := inductionHypothesis middle
      exact ⟨next, by simp [takeChunks, taken, onward]⟩

theorem exists_captureFiles_holdingPeer {chunker : Bytes → Option (List Bytes)} {spec : FileSpec}
    {chunks : List Bytes} (cut : chunker spec.file.content = some chunks)
    (start : BackupRun holdingPeer) :
    ∃ run, captureFiles context chunker [spec] start =
      .ok ([entryOf context spec chunks], run) := by
  obtain ⟨taken, takenOk⟩ := exists_takeChunks_holdingPeer context chunks start
  simp only [captureFiles, captureFile, cut, takenOk]
  exact ⟨_, rfl⟩

/-- The file of zeros, as it is collected. -/
def zeroSpec (count : Nat) : FileSpec :=
  ⟨⟨List.replicate (count * (4 * 1024 * 1024)) 0, none, 33188⟩, "d" ++ "/" ++ "f"⟩

theorem collectFiles_zeroRequest (count : Nat) :
    collectFiles (zeroRequest count).roots = .ok [zeroSpec count] := by
  simp [collectFiles, collectRoots, zeroRequest, rootName, walkDir, walkEntries, nameOrder,
    joinWalks, zeroSpec]

theorem zeroSpec_sizes (count : Nat) :
    entryBytes [zeroSpec count] = 35 ∧ referenceCount zeroChunker [zeroSpec count] = count := by
  constructor
  · have path : (utf8Bytes "d/f").length = 3 := by decide
    simp [entryBytes, zeroSpec, path, manifestFileFixedBytes]
  · simp [referenceCount, zeroChunker, zeroSpec]

/-- The cipher with the right lengths. -/
theorem zeroLibraries_lengthens : zeroLibraries.aead.Lengthens := by
  intro key nonce aad msg ciphertext encrypted
  cases encrypted
  simp

/-- The manifest of the file of zeros, as the backup builds it. -/
def zeroManifest (libraries : Libraries) (count : Nat) : Manifest :=
  ⟨.fromParts 1 0, 5,
    [entryOf (contextOf libraries zeroTests zeroKeys zeroNonces (zeroRequest count) [])
      (zeroSpec count) (List.replicate count zeroChunk)]⟩

/-- The backup of the file of zeros puts its manifest once the cipher takes
it. -/
theorem exists_sends_zeroRequest {libraries : Libraries} {count : Nat} (fits : count < 2 ^ 32)
    (taken : ∀ encoded, (zeroManifest libraries count).encode = .ok encoded →
      ∃ sealedBlob, encryptManifest libraries.aead zeroKeys.dataKey (.fromParts 1 0) encoded
        (.replicate 24 0) = .ok sealedBlob) :
    ∃ session put, Sends libraries zeroTests zeroKeys zeroNonces holdingPeer ()
      (zeroRequest count) session put := by
  obtain ⟨context, contextIs⟩ : ∃ context,
      context = contextOf libraries zeroTests zeroKeys zeroNonces (zeroRequest count) [] :=
    ⟨_, rfl⟩
  obtain ⟨start, startIs⟩ : ∃ start : BackupRun holdingPeer,
      start = .start () (zeroRequest count).snapshotId := ⟨_, rfl⟩
  have cut : zeroChunker (zeroSpec count).file.content =
      some (List.replicate count zeroChunk) := by
    simp [zeroChunker, zeroSpec]
  obtain ⟨run, captured⟩ := exists_captureFiles_holdingPeer context cut start
  obtain ⟨session, flushed⟩ := exists_flush_holdingPeer context run.pending run.session
  subst contextIs startIs
  have encodable : (zeroManifest libraries count).Fits := by
    have path : (utf8Bytes "d/f").length = 3 := by decide
    refine ⟨by simp [zeroManifest], ?_⟩
    intro file listed
    obtain rfl := List.mem_singleton.mp listed
    simp [entryOf, zeroSpec, path]
    omega
  obtain ⟨encoded, encodedOk⟩ := Manifest.encode_succeeds_iff.mpr encodable
  obtain ⟨sealedBlob, sealedOk⟩ := taken encoded encodedOk
  exact ⟨session, _, [], (), [zeroSpec count], _, run, encoded, sealedBlob, rfl,
    collectFiles_zeroRequest count, captured, flushed, encodedOk, sealedOk, rfl⟩

theorem zeroManifest_three : zeroManifest smallLibraries 3 = smallManifest := by
  have size : ((List.replicate 3 zeroChunk).map fun data => UInt64.ofNat data.length).sum =
      12582912 := by
    rw [List.map_replicate, zeroChunk, List.length_replicate]
    decide
  simp only [zeroManifest, entryOf, size]
  rfl

theorem smallRecords_coherent : Coherent smallRecords := by decide +kernel

theorem small_manifest_is_sealed (encoded : Bytes)
    (encodedOk : (zeroManifest smallLibraries 3).encode = .ok encoded) :
    ∃ sealedBlob, encryptManifest smallLibraries.aead zeroKeys.dataKey (.fromParts 1 0) encoded
      (.replicate 24 0) = .ok sealedBlob := by
  rw [zeroManifest_three] at encodedOk
  have isRecorded : encoded = smallEncoding := by
    rw [smallEncoding, encodedOk]
    rfl
  subst isRecorded
  have checked : (encryptManifest smallLibraries.aead zeroKeys.dataKey (.fromParts 1 0)
      smallEncoding (.replicate 24 0)).isOk = true := by
    decide +kernel
  cases outcome : encryptManifest smallLibraries.aead zeroKeys.dataKey (.fromParts 1 0)
      smallEncoding (.replicate 24 0) with
  | error error =>
      rw [outcome] at checked
      cases checked
  | ok sealedBlob => exact ⟨sealedBlob, rfl⟩

theorem small_manifest_request_fits :
    ∃ session put, Sends smallLibraries zeroTests zeroKeys zeroNonces holdingPeer ()
        (zeroRequest 3) session put ∧ putManifestLen put ≤ maxMessageSize := by
  obtain ⟨session, put, sends⟩ :=
    exists_sends_zeroRequest (by decide : 3 < 2 ^ 32) small_manifest_is_sealed
  obtain ⟨entries, references⟩ := zeroSpec_sizes 3
  have chunker : (zeroRequest 3).chunker = zeroChunker := rfl
  have fits := manifest_request_fits_iff smallRecords_coherent.inverts.lengthens
    (collectFiles_zeroRequest 3) sends
  rw [chunker, entries, references] at fits
  exact ⟨session, put, sends, fits.mpr (by decide)⟩

/-- Two thirds of the references said to fit are already too many. -/
theorem manifest_of_600000_references_is_too_large :
    ∃ session put, Sends zeroLibraries zeroTests zeroKeys zeroNonces holdingPeer ()
        (zeroRequest 600000) session put ∧
      collectFiles (zeroRequest 600000).roots = .ok [zeroSpec 600000] ∧
      referenceCount (zeroRequest 600000).chunker [zeroSpec 600000] ≤ 900000 ∧
      entryBytes [zeroSpec 600000] ≤ 1024 * 1024 ∧
      ¬ putManifestLen put ≤ maxMessageSize := by
  have taken (encoded : Bytes) (_ : (zeroManifest zeroLibraries 600000).encode = .ok encoded) :
      ∃ sealedBlob, encryptManifest zeroLibraries.aead zeroKeys.dataKey (.fromParts 1 0) encoded
        (.replicate 24 0) = .ok sealedBlob := ⟨_, rfl⟩
  obtain ⟨session, put, sends⟩ :=
    exists_sends_zeroRequest (by decide : 600000 < 2 ^ 32) taken
  obtain ⟨entries, references⟩ := zeroSpec_sizes 600000
  have length := putManifestLen_of_sends zeroLibraries_lengthens
    (collectFiles_zeroRequest 600000) sends
  have chunker : (zeroRequest 600000).chunker = zeroChunker := rfl
  rw [chunker, entries, references] at length
  refine ⟨session, put, sends, collectFiles_zeroRequest 600000, ?_, ?_, ?_⟩
  · rw [chunker, references]
    decide
  · rw [entries]
    decide
  · rw [length, fits_iff]
    decide

end Sample

end Busyncr.Client
