import Busyncr.Core.Index
import Busyncr.Lib.ByteReader
import Mathlib.Algebra.Order.BigOperators.Group.List

/-!
Snapshot manifests and their canonical wire format: a header of 28 bytes,
then for each file the path with its length, 28 bytes of fixed fields and the
chunk IDs.
-/

namespace Busyncr

open ByteReader

/-- One file captured in a snapshot. -/
structure FileEntry where
  path : String
  size : UInt64
  mtimeSecs : Int64
  mtimeNanos : UInt32
  mode : UInt32
  chunks : List ChunkId
deriving DecidableEq

/-- The record of one backup run. -/
structure Manifest where
  snapshotId : Ulid
  createdAt : Int64
  files : List FileEntry
deriving DecidableEq

inductive ManifestError where
  | tooLarge (what : String) (value limit : Nat)
  | truncated (what : String) (needed : Nat)
  | trailingBytes (count : Nat)
  | invalidPath (index : Nat)
deriving DecidableEq

def manifestHeaderBytes : Nat := 16 + 8 + 4

def manifestFileFixedBytes : Nat := 4 + 8 + 8 + 4 + 4 + 4

/-- The UTF-8 bytes of a string (`str::as_bytes`). -/
def utf8Bytes (text : String) : Bytes := text.toByteArray.data.toList

/-- `str::from_utf8`. -/
def fromUtf8? (bytes : Bytes) : Option String := String.fromUTF8? ⟨bytes.toArray⟩

/-- Check that a count fits a `u32` wire field. -/
def fitU32 (value : Nat) (what : String) : Except ManifestError UInt32 :=
  if value < 2 ^ 32 then .ok (UInt32.ofNat value)
  else .error (.tooLarge what value (2 ^ 32 - 1))

/-- The bytes of a file entry whose counts were checked. -/
def FileEntry.layout (file : FileEntry) (pathLen chunkCount : UInt32) : Bytes :=
  leU32 pathLen ++ (utf8Bytes file.path ++ (leU64 file.size ++ (toLeBytes file.mtimeSecs ++
    (leU32 file.mtimeNanos ++ (leU32 file.mode ++ (leU32 chunkCount ++
      file.chunks.flatMap ChunkId.asBytes))))))

def FileEntry.encode (file : FileEntry) : Except ManifestError Bytes :=
  match fitU32 (utf8Bytes file.path).length "path length" with
  | .error error => .error error
  | .ok pathLen =>
      match fitU32 file.chunks.length "chunk count" with
      | .error error => .error error
      | .ok chunkCount => .ok (file.layout pathLen chunkCount)

/-- The entries one after another, up to the first that does not fit. -/
def encodeFiles : List FileEntry → Except ManifestError Bytes
  | [] => .ok []
  | file :: rest =>
      match file.encode with
      | .error error => .error error
      | .ok entry =>
          match encodeFiles rest with
          | .error error => .error error
          | .ok entries => .ok (entry ++ entries)

namespace Manifest

/-- Every chunk reference in manifest order, duplicates included. -/
def chunkRefs (manifest : Manifest) : List ChunkId := manifest.files.flatMap FileEntry.chunks

/-- The size of the encoding, computed without serializing. -/
def encodedLen (manifest : Manifest) : Nat :=
  manifest.files.foldl (fun total file =>
    total + (manifestFileFixedBytes + (utf8Bytes file.path).length +
      ChunkId.len * file.chunks.length)) manifestHeaderBytes

def encode (manifest : Manifest) : Except ManifestError Bytes :=
  match fitU32 manifest.files.length "file count" with
  | .error error => .error error
  | .ok fileCount =>
      match encodeFiles manifest.files with
      | .error error => .error error
      | .ok entries =>
          .ok (manifest.snapshotId.toBytes ++ (toLeBytes manifest.createdAt ++
            (leU32 fileCount ++ entries)))

end Manifest

abbrev ManifestReader := Reader ManifestError

def takeU32 (what : String) : ManifestReader UInt32 :=
  UInt32.ofNat <$> takeLittle (.truncated what) 4

def takeU64 (what : String) : ManifestReader UInt64 :=
  UInt64.ofNat <$> takeLittle (.truncated what) 8

def takeI64 (what : String) : ManifestReader Int64 :=
  fromLeBytes <$> take (.truncated what) 8

/-- The path of the entry at an index, if its bytes are UTF-8. -/
def decodePath (index : Nat) (bytes : Bytes) : ManifestReader String :=
  match fromUtf8? bytes with
  | some path => pure path
  | none => throw (.invalidPath index)

def takePath (index : Nat) : ManifestReader String := do
  let pathLen ← takeU32 "path length"
  let bytes ← take (.truncated "path bytes") pathLen.toNat
  decodePath index bytes

def takeUlid : ManifestReader Ulid :=
  (fun bytes => ⟨BitVec.ofNat 128 (ByteCodec.bigValue bytes)⟩) <$> take (.truncated "snapshot id") 16

def takeChunkId : ManifestReader ChunkId := fun input =>
  match take (.truncated "chunk id") ChunkId.len input with
  | .error error => .error error
  | .ok (bytes, rest) =>
      match ChunkId.fromSlice? bytes with
      | some id => .ok (id, rest)
      | none => .error (.truncated "chunk id" ChunkId.len)

def takeFile (index : Nat) : ManifestReader FileEntry := do
  let path ← takePath index
  let size ← takeU64 "file size"
  let mtimeSecs ← takeI64 "mtime seconds"
  let mtimeNanos ← takeU32 "mtime nanos"
  let mode ← takeU32 "mode"
  let chunkCount ← takeU32 "chunk count"
  let chunks ← many (fun _ => takeChunkId) chunkCount.toNat 0
  return { path, size, mtimeSecs, mtimeNanos, mode, chunks }

def takeManifest : ManifestReader Manifest := do
  let snapshotId ← takeUlid
  let createdAt ← takeI64 "created_at"
  let fileCount ← takeU32 "file count"
  let files ← many takeFile fileCount.toNat 0
  return { snapshotId, createdAt, files }

/-- Parse the wire format; bytes after the last entry are refused. -/
def Manifest.decode (bytes : Bytes) : Except ManifestError Manifest :=
  match takeManifest bytes with
  | .error error => .error error
  | .ok (manifest, rest) => if rest = [] then .ok manifest else .error (.trailingBytes rest.length)

theorem utf8Bytes_eq_flatMap (text : String) :
    utf8Bytes text = text.toList.flatMap String.utf8EncodeChar := by
  rw [utf8Bytes, ← String.utf8Encode_toList, List.utf8Encode]
  simp

@[simp]
theorem fromUtf8?_utf8Bytes (text : String) : fromUtf8? (utf8Bytes text) = some text := by
  have valid : (ByteArray.mk (utf8Bytes text).toArray).IsValidUTF8 := by
    simpa [utf8Bytes] using text.isValidUTF8
  rw [fromUtf8?, String.fromUTF8?, dif_pos valid]
  congr 1

theorem fitU32_ok {value : Nat} {what : String} {field : UInt32}
    (fits : fitU32 value what = .ok field) : field.toNat = value := by
  unfold fitU32 at fits
  split at fits
  next small =>
    cases fits
    rw [UInt32.toNat_ofNat', Nat.mod_eq_of_lt small]
  next large => cases fits

theorem FileEntry.layout_of_encode {file : FileEntry} {bytes : Bytes}
    (encoded : file.encode = .ok bytes) :
    ∃ pathLen chunkCount : UInt32, pathLen.toNat = (utf8Bytes file.path).length ∧
      chunkCount.toNat = file.chunks.length ∧ bytes = file.layout pathLen chunkCount := by
  unfold FileEntry.encode at encoded
  split at encoded
  next => cases encoded
  next pathLen pathFits =>
    split at encoded
    next => cases encoded
    next chunkCount chunksFit =>
      cases encoded
      exact ⟨pathLen, chunkCount, fitU32_ok pathFits, fitU32_ok chunksFit, rfl⟩

theorem encodeFiles_cons {file : FileEntry} {rest : List FileEntry} {bytes : Bytes}
    (encoded : encodeFiles (file :: rest) = .ok bytes) :
    ∃ entry entries, file.encode = .ok entry ∧ encodeFiles rest = .ok entries ∧
      bytes = entry ++ entries := by
  simp only [encodeFiles] at encoded
  split at encoded
  next => cases encoded
  next entry entryEncoded =>
    split at encoded
    next => cases encoded
    next entries restEncoded =>
      cases encoded
      exact ⟨entry, entries, entryEncoded, restEncoded, rfl⟩

theorem Manifest.layout_of_encode {manifest : Manifest} {bytes : Bytes}
    (encoded : manifest.encode = .ok bytes) :
    ∃ (fileCount : UInt32) (entries : Bytes), fileCount.toNat = manifest.files.length ∧
      encodeFiles manifest.files = .ok entries ∧
      bytes = manifest.snapshotId.toBytes ++ (toLeBytes manifest.createdAt ++
        (leU32 fileCount ++ entries)) := by
  unfold Manifest.encode at encoded
  split at encoded
  next => cases encoded
  next fileCount filesFit =>
    split at encoded
    next => cases encoded
    next entries filesEncoded =>
      cases encoded
      exact ⟨fileCount, entries, fitU32_ok filesFit, filesEncoded, rfl⟩

theorem encodeFiles_counts {files : List FileEntry} {bytes : Bytes}
    (encoded : encodeFiles files = .ok bytes) : ∀ file ∈ files, file.chunks.length < 2 ^ 32 := by
  induction files generalizing bytes with
  | nil => simp
  | cons file rest inductionHypothesis =>
      obtain ⟨entry, entries, entryEncoded, restEncoded, rfl⟩ := encodeFiles_cons encoded
      refine List.forall_mem_cons.mpr ⟨?_, inductionHypothesis restEncoded⟩
      obtain ⟨-, chunkCount, -, counted, -⟩ := FileEntry.layout_of_encode entryEncoded
      rw [← counted]
      exact chunkCount.toNat_lt

/-- The counts of an encodable manifest fit 64-bit counters. -/
theorem Manifest.counts_of_encode {manifest : Manifest} {bytes : Bytes}
    (encoded : manifest.encode = .ok bytes) :
    manifest.files.length < 2 ^ 64 ∧ manifest.chunkRefs.length < 2 ^ 64 := by
  obtain ⟨fileCount, entries, counted, filesEncoded, -⟩ := Manifest.layout_of_encode encoded
  have filesBound : manifest.files.length < 2 ^ 32 := by
    rw [← counted]
    exact fileCount.toNat_lt
  refine ⟨by omega, ?_⟩
  have perFile : ∀ count ∈ manifest.files.map fun file => file.chunks.length,
      count ≤ 2 ^ 32 - 1 := by
    intro count membership
    obtain ⟨file, listed, rfl⟩ := List.mem_map.mp membership
    have bound := encodeFiles_counts filesEncoded file listed
    omega
  calc
    manifest.chunkRefs.length =
        (manifest.files.map fun file => file.chunks.length).sum := by
      rw [Manifest.chunkRefs, List.length_flatMap]
    _ ≤ (manifest.files.map fun file => file.chunks.length).length • (2 ^ 32 - 1) :=
      List.sum_le_card_nsmul _ _ perFile
    _ < 2 ^ 64 := by
      rw [List.length_map, nsmul_eq_mul, Nat.cast_id]
      calc
        manifest.files.length * (2 ^ 32 - 1) ≤ 2 ^ 32 * (2 ^ 32 - 1) :=
          Nat.mul_le_mul_right _ filesBound.le
        _ < 2 ^ 64 := by norm_num

section RoundTrip

theorem reads_takeU32 (what : String) (value : UInt32) :
    Reads (takeU32 what) (leU32 value) value := by
  have taken := (reads_takeLittle (ManifestError.truncated what)
    (show value.toNat < 256 ^ 4 from value.toNat_lt)).map UInt32.ofNat
  rwa [UInt32.ofNat_toNat] at taken

theorem reads_takeU64 (what : String) (value : UInt64) :
    Reads (takeU64 what) (leU64 value) value := by
  have taken := (reads_takeLittle (ManifestError.truncated what)
    (show value.toNat < 256 ^ 8 from value.toNat_lt)).map UInt64.ofNat
  rwa [UInt64.ofNat_toNat] at taken

theorem reads_takeI64 (what : String) (value : Int64) :
    Reads (takeI64 what) (toLeBytes value) value := by
  have taken := (reads_take_of_length (ManifestError.truncated what)
    (length_toLeBytes value)).map fromLeBytes
  rwa [fromLeBytes_toLeBytes] at taken

theorem reads_takeUlid (id : Ulid) : Reads takeUlid id.toBytes id := by
  have small : id.value.toNat < 256 ^ 16 := id.value.isLt
  have taken := (reads_take_of_length (ManifestError.truncated "snapshot id")
    (Ulid.length_toBytes id)).map fun bytes =>
      (⟨BitVec.ofNat 128 (ByteCodec.bigValue bytes)⟩ : Ulid)
  simpa [takeUlid, Ulid.toBytes, ByteCodec.bigValue_big_of_lt small] using taken

theorem reads_takeChunkId (id : ChunkId) : Reads takeChunkId id.asBytes id := by
  intro rest
  have taken := reads_take_of_length (ManifestError.truncated "chunk id")
    (show id.asBytes.length = ChunkId.len from id.length_asBytes) rest
  simp [takeChunkId, taken]

theorem reads_takePath (index : Nat) {path : String} {pathLen : UInt32}
    (counted : pathLen.toNat = (utf8Bytes path).length) :
    Reads (takePath index) (leU32 pathLen ++ utf8Bytes path) path := by
  refine (reads_takeU32 "path length" pathLen).bind ?_
  have decoded : Reads (decodePath index (utf8Bytes path)) [] path := by
    rw [decodePath, fromUtf8?_utf8Bytes]
    exact reads_pure path
  have read : Reads (take (ManifestError.truncated "path bytes") pathLen.toNat >>=
      decodePath index) (utf8Bytes path ++ []) path :=
    (reads_take_of_length _ counted.symm).bind decoded
  rwa [List.append_nil] at read

theorem reads_takeFile (index : Nat) {file : FileEntry} {pathLen chunkCount : UInt32}
    (pathCounted : pathLen.toNat = (utf8Bytes file.path).length)
    (chunksCounted : chunkCount.toNat = file.chunks.length) :
    Reads (takeFile index) (file.layout pathLen chunkCount) file := by
  have chunks : Reads (many (fun _ => takeChunkId) chunkCount.toNat 0)
      (file.chunks.flatMap ChunkId.asBytes) file.chunks := by
    rw [chunksCounted]
    exact reads_many (fun _ id _ => reads_takeChunkId id) 0
  rw [FileEntry.layout, ← List.append_assoc]
  refine (reads_takePath index pathCounted).bind ?_
  refine (reads_takeU64 "file size" file.size).bind ?_
  refine (reads_takeI64 "mtime seconds" file.mtimeSecs).bind ?_
  refine (reads_takeU32 "mtime nanos" file.mtimeNanos).bind ?_
  refine (reads_takeU32 "mode" file.mode).bind ?_
  refine (reads_takeU32 "chunk count" chunkCount).bind ?_
  rw [← List.append_nil (file.chunks.flatMap ChunkId.asBytes)]
  exact chunks.bind (reads_pure file)

theorem FileEntry.encode_ok {file : FileEntry} {bytes : Bytes} (encoded : file.encode = .ok bytes)
    (index : Nat) : Reads (takeFile index) bytes file := by
  obtain ⟨pathLen, chunkCount, pathCounted, chunksCounted, rfl⟩ :=
    FileEntry.layout_of_encode encoded
  exact reads_takeFile index pathCounted chunksCounted

theorem reads_files {files : List FileEntry} {bytes : Bytes}
    (encoded : encodeFiles files = .ok bytes) (index : Nat) :
    Reads (many takeFile files.length index) bytes files := by
  induction files generalizing bytes index with
  | nil =>
      cases encoded
      exact reads_pure []
  | cons file rest inductionHypothesis =>
      obtain ⟨entry, entries, entryEncoded, restEncoded, rfl⟩ := encodeFiles_cons encoded
      have closed : Reads (many takeFile rest.length (index + 1) >>= fun files =>
          pure (file :: files)) (entries ++ []) (file :: rest) :=
        (inductionHypothesis restEncoded (index + 1)).bind (reads_pure (file :: rest))
      rw [List.append_nil] at closed
      exact (FileEntry.encode_ok entryEncoded index).bind closed

theorem Manifest.encode_ok {manifest : Manifest} {bytes : Bytes}
    (encoded : manifest.encode = .ok bytes) : Reads takeManifest bytes manifest := by
  obtain ⟨fileCount, entries, counted, filesEncoded, rfl⟩ := Manifest.layout_of_encode encoded
  have files : Reads (many takeFile fileCount.toNat 0) entries manifest.files := by
    rw [counted]
    exact reads_files filesEncoded 0
  have closed : Reads (many takeFile fileCount.toNat 0 >>= fun files =>
      pure { snapshotId := manifest.snapshotId, createdAt := manifest.createdAt, files })
      (entries ++ []) manifest :=
    files.bind (reads_pure manifest)
  rw [List.append_nil] at closed
  exact (reads_takeUlid manifest.snapshotId).bind
    ((reads_takeI64 "created_at" manifest.createdAt).bind
      ((reads_takeU32 "file count" fileCount).bind closed))

/-- What was encoded decodes to the manifest it was. -/
theorem Manifest.decode_of_encode {manifest : Manifest} {bytes : Bytes}
    (encoded : manifest.encode = .ok bytes) : Manifest.decode bytes = .ok manifest := by
  have whole := Manifest.encode_ok encoded []
  rw [List.append_nil] at whole
  simp [Manifest.decode, whole]

end RoundTrip

section Canonical

variable {what : String} {input rest : Bytes}

theorem takeU32_ok {value : UInt32} (taken : takeU32 what input = .ok (value, rest)) :
    input = leU32 value ++ rest := by
  obtain ⟨number, front, rfl⟩ := map_ok taken
  obtain ⟨rfl, small⟩ := takeLittle_ok front
  rw [leU32, UInt32.toNat_ofNat', Nat.mod_eq_of_lt (show number < 2 ^ 32 from small)]

theorem takeU64_ok {value : UInt64} (taken : takeU64 what input = .ok (value, rest)) :
    input = leU64 value ++ rest := by
  obtain ⟨number, front, rfl⟩ := map_ok taken
  obtain ⟨rfl, small⟩ := takeLittle_ok front
  rw [leU64, UInt64.toNat_ofNat', Nat.mod_eq_of_lt (show number < 2 ^ 64 from small)]

theorem takeI64_ok {value : Int64} (taken : takeI64 what input = .ok (value, rest)) :
    input = toLeBytes value ++ rest := by
  obtain ⟨bytes, front, rfl⟩ := map_ok taken
  obtain ⟨rfl, width⟩ := take_ok front
  rw [toLeBytes_fromLeBytes width]

theorem takeUlid_ok {id : Ulid} (taken : takeUlid input = .ok (id, rest)) :
    input = id.toBytes ++ rest := by
  obtain ⟨bytes, front, rfl⟩ := map_ok taken
  obtain ⟨rfl, width⟩ := take_ok front
  have read : Ulid.fromSlice? bytes = some ⟨BitVec.ofNat 128 (ByteCodec.bigValue bytes)⟩ := by
    simp [Ulid.fromSlice?, width]
  rw [Ulid.toBytes_of_fromSlice? read]

theorem takeChunkId_ok {id : ChunkId} (taken : takeChunkId input = .ok (id, rest)) :
    input = id.asBytes ++ rest := by
  unfold takeChunkId at taken
  split at taken
  next => cases taken
  next bytes later front =>
    split at taken
    next found read =>
      cases taken
      rw [ChunkId.asBytes_of_fromSlice? read]
      exact (take_ok front).1
    next => cases taken

theorem utf8Bytes_of_fromUtf8? {bytes : Bytes} {text : String} (read : fromUtf8? bytes = some text) :
    utf8Bytes text = bytes := by
  unfold fromUtf8? String.fromUTF8? at read
  split at read
  next valid =>
    cases read
    simp [utf8Bytes, String.fromUTF8]
  next => cases read

theorem takePath_ok {index : Nat} {path : String}
    (taken : takePath index input = .ok (path, rest)) :
    ∃ pathLen : UInt32, pathLen.toNat = (utf8Bytes path).length ∧
      input = leU32 pathLen ++ utf8Bytes path ++ rest := by
  obtain ⟨pathLen, middle, lengthTaken, onward⟩ := bind_ok taken
  obtain ⟨bytes, later, bytesTaken, decoded⟩ := bind_ok onward
  obtain ⟨rfl, width⟩ := take_ok bytesTaken
  unfold decodePath at decoded
  cases read : fromUtf8? bytes with
  | none =>
      rw [read] at decoded
      cases decoded
  | some text =>
      rw [read] at decoded
      obtain ⟨rfl, rfl⟩ := pure_ok decoded
      refine ⟨pathLen, ?_, ?_⟩
      · rw [utf8Bytes_of_fromUtf8? read, width]
      · rw [takeU32_ok lengthTaken, utf8Bytes_of_fromUtf8? read, List.append_assoc]

theorem fitU32_of_toNat {value : Nat} {field : UInt32} (counted : field.toNat = value) :
    fitU32 value what = .ok field := by
  rw [← counted, fitU32, if_pos field.toNat_lt, UInt32.ofNat_toNat]

theorem takeFile_ok {index : Nat} {file : FileEntry}
    (taken : takeFile index input = .ok (file, rest)) :
    ∃ front, file.encode = .ok front ∧ input = front ++ rest := by
  obtain ⟨path, afterPath, pathTaken, taken⟩ := bind_ok taken
  obtain ⟨size, afterSize, sizeTaken, taken⟩ := bind_ok taken
  obtain ⟨mtimeSecs, afterSecs, secsTaken, taken⟩ := bind_ok taken
  obtain ⟨mtimeNanos, afterNanos, nanosTaken, taken⟩ := bind_ok taken
  obtain ⟨mode, afterMode, modeTaken, taken⟩ := bind_ok taken
  obtain ⟨chunkCount, afterCount, countTaken, taken⟩ := bind_ok taken
  obtain ⟨chunks, afterChunks, chunksTaken, closed⟩ := bind_ok taken
  obtain ⟨rfl, rfl⟩ := pure_ok closed
  obtain ⟨pathLen, pathCounted, pathFront⟩ := takePath_ok pathTaken
  obtain ⟨chunksFront, chunksCounted⟩ := many_ok takeChunkId_ok chunksTaken
  refine ⟨FileEntry.layout ⟨path, size, mtimeSecs, mtimeNanos, mode, chunks⟩ pathLen chunkCount,
    ?_, ?_⟩
  · simp only [FileEntry.encode, fitU32_of_toNat pathCounted,
      fitU32_of_toNat chunksCounted.symm]
  · rw [pathFront, takeU64_ok sizeTaken, takeI64_ok secsTaken, takeU32_ok nanosTaken,
      takeU32_ok modeTaken, takeU32_ok countTaken, chunksFront]
    simp [FileEntry.layout]

theorem takeFiles_ok {count index : Nat} {files : List FileEntry}
    (taken : many takeFile count index input = .ok (files, rest)) :
    files.length = count ∧ ∃ front, encodeFiles files = .ok front ∧ input = front ++ rest := by
  induction count generalizing index input files with
  | zero =>
      obtain ⟨rfl, rfl⟩ := pure_ok taken
      exact ⟨rfl, [], rfl, rfl⟩
  | succ count inductionHypothesis =>
      obtain ⟨file, middle, first, onward⟩ := bind_ok taken
      obtain ⟨others, last, further, closed⟩ := bind_ok onward
      obtain ⟨rfl, rfl⟩ := pure_ok closed
      obtain ⟨entry, entryEncoded, rfl⟩ := takeFile_ok first
      obtain ⟨counted, entries, restEncoded, rfl⟩ := inductionHypothesis further
      refine ⟨by simp [counted], entry ++ entries, ?_, by simp⟩
      simp only [encodeFiles, entryEncoded, restEncoded]

/-- What decodes is the encoding of the manifest it decodes to. -/
theorem Manifest.encode_of_decode {bytes : Bytes} {manifest : Manifest}
    (decoded : Manifest.decode bytes = .ok manifest) : manifest.encode = .ok bytes := by
  unfold Manifest.decode at decoded
  split at decoded
  next => cases decoded
  next found rest taken =>
    split at decoded
    next none =>
      cases decoded
      rw [none] at taken
      obtain ⟨snapshotId, afterId, idTaken, taken⟩ := bind_ok taken
      obtain ⟨createdAt, afterCreated, createdTaken, taken⟩ := bind_ok taken
      obtain ⟨fileCount, afterCount, countTaken, taken⟩ := bind_ok taken
      obtain ⟨files, afterFiles, filesTaken, closed⟩ := bind_ok taken
      obtain ⟨rfl, rfl⟩ := pure_ok closed
      obtain ⟨counted, entries, filesEncoded, front⟩ := takeFiles_ok filesTaken
      simp only [Manifest.encode, fitU32_of_toNat counted.symm, filesEncoded]
      rw [takeUlid_ok idTaken, takeI64_ok createdTaken, takeU32_ok countTaken, front,
        List.append_nil]
    next => cases decoded

end Canonical

section Limits

/-- Every count of the manifest fits its wire field. -/
def Manifest.Fits (manifest : Manifest) : Prop :=
  manifest.files.length ≤ 2 ^ 32 - 1 ∧
    ∀ file ∈ manifest.files, (utf8Bytes file.path).length ≤ 2 ^ 32 - 1 ∧
      file.chunks.length ≤ 2 ^ 32 - 1

theorem fitU32_succeeds_iff (value : Nat) (what : String) :
    (∃ field, fitU32 value what = .ok field) ↔ value ≤ 2 ^ 32 - 1 := by
  unfold fitU32
  split
  next small => exact ⟨fun _ => by omega, fun _ => ⟨_, rfl⟩⟩
  next large =>
    refine ⟨?_, fun small => by omega⟩
    rintro ⟨field, failed⟩
    cases failed

theorem FileEntry.encode_succeeds_iff {file : FileEntry} :
    (∃ bytes, file.encode = .ok bytes) ↔
      (utf8Bytes file.path).length ≤ 2 ^ 32 - 1 ∧ file.chunks.length ≤ 2 ^ 32 - 1 := by
  rw [← fitU32_succeeds_iff _ "path length", ← fitU32_succeeds_iff _ "chunk count"]
  unfold FileEntry.encode
  constructor
  · rintro ⟨bytes, encoded⟩
    split at encoded
    next => cases encoded
    next pathLen pathFits =>
      split at encoded
      next => cases encoded
      next chunkCount chunksFit => exact ⟨⟨pathLen, pathFits⟩, chunkCount, chunksFit⟩
  · rintro ⟨⟨pathLen, pathFits⟩, chunkCount, chunksFit⟩
    simp only [pathFits, chunksFit]
    exact ⟨_, rfl⟩

theorem encodeFiles_succeeds_iff {files : List FileEntry} :
    (∃ bytes, encodeFiles files = .ok bytes) ↔
      ∀ file ∈ files, ∃ bytes, file.encode = .ok bytes := by
  induction files with
  | nil => exact ⟨fun _ => by simp, fun _ => ⟨[], rfl⟩⟩
  | cons file rest inductionHypothesis =>
      rw [List.forall_mem_cons, ← inductionHypothesis]
      simp only [encodeFiles]
      constructor
      · rintro ⟨bytes, encoded⟩
        split at encoded
        next => cases encoded
        next entry entryEncoded =>
          split at encoded
          next => cases encoded
          next entries restEncoded => exact ⟨⟨entry, entryEncoded⟩, entries, restEncoded⟩
      · rintro ⟨⟨entry, entryEncoded⟩, entries, restEncoded⟩
        simp only [entryEncoded, restEncoded]
        exact ⟨_, rfl⟩

theorem Manifest.encode_succeeds_iff {manifest : Manifest} :
    (∃ bytes, manifest.encode = .ok bytes) ↔ manifest.Fits := by
  have files : (∀ file ∈ manifest.files, (utf8Bytes file.path).length ≤ 2 ^ 32 - 1 ∧
      file.chunks.length ≤ 2 ^ 32 - 1) ↔ ∃ bytes, encodeFiles manifest.files = .ok bytes := by
    simp only [encodeFiles_succeeds_iff, FileEntry.encode_succeeds_iff]
  rw [Manifest.Fits, files, ← fitU32_succeeds_iff _ "file count"]
  unfold Manifest.encode
  constructor
  · rintro ⟨bytes, encoded⟩
    split at encoded
    next => cases encoded
    next fileCount filesFit =>
      split at encoded
      next => cases encoded
      next entries filesEncoded => exact ⟨⟨fileCount, filesFit⟩, entries, filesEncoded⟩
  · rintro ⟨⟨fileCount, filesFit⟩, entries, filesEncoded⟩
    simp only [filesFit, filesEncoded]
    exact ⟨_, rfl⟩

theorem FileEntry.length_layout (file : FileEntry) (pathLen chunkCount : UInt32) :
    (file.layout pathLen chunkCount).length =
      manifestFileFixedBytes + (utf8Bytes file.path).length + ChunkId.len * file.chunks.length := by
  have ids : (file.chunks.flatMap ChunkId.asBytes).length = 32 * file.chunks.length := by
    rw [List.length_flatMap]
    simp [Nat.mul_comm]
  simp only [FileEntry.layout, List.length_append, leU32, leU64, ByteCodec.length_little,
    length_toLeBytes, ids, manifestFileFixedBytes, ChunkId.len]
  omega

theorem length_encodeFiles {files : List FileEntry} {bytes : Bytes} (start : Nat)
    (encoded : encodeFiles files = .ok bytes) :
    files.foldl (fun total file => total + (manifestFileFixedBytes +
      (utf8Bytes file.path).length + ChunkId.len * file.chunks.length)) start =
        start + bytes.length := by
  induction files generalizing start bytes with
  | nil =>
      cases encoded
      rfl
  | cons file rest inductionHypothesis =>
      obtain ⟨entry, entries, entryEncoded, restEncoded, rfl⟩ := encodeFiles_cons encoded
      obtain ⟨pathLen, chunkCount, -, -, rfl⟩ := FileEntry.layout_of_encode entryEncoded
      rw [List.foldl_cons, inductionHypothesis _ restEncoded, List.length_append,
        file.length_layout, Nat.add_assoc]

theorem Manifest.length_encode {manifest : Manifest} {bytes : Bytes}
    (encoded : manifest.encode = .ok bytes) : bytes.length = manifest.encodedLen := by
  obtain ⟨fileCount, entries, -, filesEncoded, rfl⟩ := Manifest.layout_of_encode encoded
  rw [Manifest.encodedLen, length_encodeFiles _ filesEncoded]
  simp only [List.length_append, Ulid.length_toBytes, length_toLeBytes, leU32,
    ByteCodec.length_little, manifestHeaderBytes]
  omega

end Limits

/-- The codec is a bijection between the manifests whose counts fit and the
byte strings it accepts. -/
theorem manifest_codec_is_bijective (manifest : Manifest) :
    ((∃ bytes, manifest.encode = .ok bytes) ↔ manifest.Fits) ∧
      (∀ bytes, manifest.encode = .ok bytes → bytes.length = manifest.encodedLen) ∧
      ∀ bytes, Manifest.decode bytes = .ok manifest ↔ manifest.encode = .ok bytes :=
  ⟨Manifest.encode_succeeds_iff, fun _ => Manifest.length_encode,
    fun _ => ⟨Manifest.encode_of_decode, Manifest.decode_of_encode⟩⟩

end Busyncr
