import Busyncr.Core.Manifest
import Busyncr.Lib.MeteredReader

/-!
Decoding damaged manifests.

An encoding cut short anywhere runs out of bytes in some field, and bytes
after it are counted as trailing.  Whatever counts the input declares, the
decoder has paid with bytes of the input for every entry and chunk ID it has
built when it stops.
-/

namespace Busyncr

open ByteReader

/-- The input ended early, by at least one byte. -/
def ManifestError.Missing (error : ManifestError) : Prop :=
  ∃ what needed, error = .truncated what needed ∧ 0 < needed

theorem missing_truncated (what : String) {needed : Nat} (positive : 0 < needed) :
    (ManifestError.truncated what needed).Missing := ⟨what, needed, rfl, positive⟩

section Starving

theorem starves_takeU32 (what : String) (value : UInt32) :
    Starves (takeU32 what) (leU32 value) ManifestError.Missing :=
  ((starves_take (missing_truncated what) (ByteCodec.length_little 4 value.toNat)).map _).map _

theorem starves_takeU64 (what : String) (value : UInt64) :
    Starves (takeU64 what) (leU64 value) ManifestError.Missing :=
  ((starves_take (missing_truncated what) (ByteCodec.length_little 8 value.toNat)).map _).map _

theorem starves_takeI64 (what : String) (value : Int64) :
    Starves (takeI64 what) (toLeBytes value) ManifestError.Missing :=
  (starves_take (missing_truncated what) (length_toLeBytes value)).map _

theorem starves_takeUlid (id : Ulid) : Starves takeUlid id.toBytes ManifestError.Missing :=
  (starves_take (missing_truncated "snapshot id") (Ulid.length_toBytes id)).map _

theorem starves_takeChunkId (id : ChunkId) :
    Starves takeChunkId id.asBytes ManifestError.Missing := by
  intro front back split nonempty
  obtain ⟨failure, failed, missing⟩ := starves_take (missing_truncated "chunk id")
    id.length_asBytes front back split nonempty
  refine ⟨failure, ?_, missing⟩
  simp only [takeChunkId]
  rw [show take (.truncated "chunk id") ChunkId.len front = .error failure from failed]

theorem starves_takePath (index : Nat) {path : String} {pathLen : UInt32}
    (counted : pathLen.toNat = (utf8Bytes path).length) :
    Starves (takePath index) (leU32 pathLen ++ utf8Bytes path) ManifestError.Missing := by
  apply (starves_takeU32 "path length" pathLen).bind (reads_takeU32 "path length" pathLen)
  have cut : Starves (take (ManifestError.truncated "path bytes") pathLen.toNat >>=
      decodePath index) (utf8Bytes path ++ []) ManifestError.Missing :=
    (starves_take (missing_truncated "path bytes") counted.symm).bind
      (reads_take_of_length _ counted.symm) (starves_nil _)
  rwa [List.append_nil] at cut

theorem starves_takeFile (index : Nat) {file : FileEntry} {pathLen chunkCount : UInt32}
    (pathCounted : pathLen.toNat = (utf8Bytes file.path).length)
    (chunksCounted : chunkCount.toNat = file.chunks.length) :
    Starves (takeFile index) (file.layout pathLen chunkCount) ManifestError.Missing := by
  have chunks : Starves (many (fun _ => takeChunkId) chunkCount.toNat 0)
      (file.chunks.flatMap ChunkId.asBytes) ManifestError.Missing := by
    rw [chunksCounted]
    exact starves_many (fun _ id _ => ⟨reads_takeChunkId id, starves_takeChunkId id⟩) 0
  have chunksRead : Reads (many (fun _ => takeChunkId) chunkCount.toNat 0)
      (file.chunks.flatMap ChunkId.asBytes) file.chunks := by
    rw [chunksCounted]
    exact reads_many (fun _ id _ => reads_takeChunkId id) 0
  rw [FileEntry.layout, ← List.append_assoc]
  apply (starves_takePath index pathCounted).bind (reads_takePath index pathCounted)
  apply (starves_takeU64 "file size" file.size).bind (reads_takeU64 "file size" file.size)
  apply (starves_takeI64 "mtime seconds" _).bind (reads_takeI64 "mtime seconds" file.mtimeSecs)
  apply (starves_takeU32 "mtime nanos" _).bind (reads_takeU32 "mtime nanos" file.mtimeNanos)
  apply (starves_takeU32 "mode" _).bind (reads_takeU32 "mode" file.mode)
  apply (starves_takeU32 "chunk count" _).bind (reads_takeU32 "chunk count" chunkCount)
  rw [← List.append_nil (file.chunks.flatMap ChunkId.asBytes)]
  exact chunks.bind chunksRead (starves_nil _)

theorem starves_files {files : List FileEntry} {bytes : Bytes}
    (encoded : encodeFiles files = .ok bytes) (index : Nat) :
    Starves (many takeFile files.length index) bytes ManifestError.Missing := by
  induction files generalizing bytes index with
  | nil =>
      cases encoded
      exact starves_nil _
  | cons file rest inductionHypothesis =>
      obtain ⟨entry, entries, entryEncoded, restEncoded, rfl⟩ := encodeFiles_cons encoded
      have read := FileEntry.encode_ok entryEncoded index
      obtain ⟨pathLen, chunkCount, pathCounted, chunksCounted, rfl⟩ :=
        FileEntry.layout_of_encode entryEncoded
      have closed : Starves (many takeFile rest.length (index + 1) >>= fun files =>
          pure (file :: files)) (entries ++ []) ManifestError.Missing :=
        (inductionHypothesis restEncoded (index + 1)).bind (reads_files restEncoded (index + 1))
          (starves_nil _)
      rw [List.append_nil] at closed
      exact (starves_takeFile index pathCounted chunksCounted).bind read closed

theorem Manifest.starves_of_encode {manifest : Manifest} {bytes : Bytes}
    (encoded : manifest.encode = .ok bytes) :
    Starves takeManifest bytes ManifestError.Missing := by
  obtain ⟨fileCount, entries, counted, filesEncoded, rfl⟩ := Manifest.layout_of_encode encoded
  apply (starves_takeUlid _).bind (reads_takeUlid manifest.snapshotId)
  apply (starves_takeI64 "created_at" _).bind (reads_takeI64 "created_at" manifest.createdAt)
  apply (starves_takeU32 "file count" _).bind (reads_takeU32 "file count" fileCount)
  have closed : Starves (many takeFile manifest.files.length 0 >>= fun files =>
      (pure ⟨manifest.snapshotId, manifest.createdAt, files⟩ : ManifestReader Manifest))
      (entries ++ []) ManifestError.Missing :=
    (starves_files filesEncoded 0).bind (reads_files filesEncoded 0) (starves_nil _)
  rwa [List.append_nil, ← counted] at closed

theorem Manifest.decode_prefix {manifest : Manifest} {bytes front back : Bytes}
    (encoded : manifest.encode = .ok bytes) (split : bytes = front ++ back)
    (nonempty : back ≠ []) :
    ∃ what needed, Manifest.decode front = .error (.truncated what needed) := by
  obtain ⟨failure, failed, what, needed, rfl, -⟩ :=
    Manifest.starves_of_encode encoded front back split nonempty
  exact ⟨what, needed, by simp only [Manifest.decode, failed]⟩

theorem Manifest.decode_trailing {manifest : Manifest} {bytes extra : Bytes}
    (encoded : manifest.encode = .ok bytes) (nonempty : extra ≠ []) :
    Manifest.decode (bytes ++ extra) = .error (.trailingBytes extra.length) := by
  simp only [Manifest.decode, Manifest.encode_ok encoded extra, if_neg nonempty]

end Starving

section Failing

/-- A truncation that is reported misses at least one byte. -/
def ManifestError.Positive : ManifestError → Prop
  | .truncated _ needed => 0 < needed
  | _ => True

theorem failsOnly_truncated (what : String) (count : Nat) :
    FailsOnly (take (.truncated what) count) ManifestError.Positive := by
  apply failsOnly_take
  intro needed positive
  exact positive

theorem failsOnly_takeU32 (what : String) : FailsOnly (takeU32 what) ManifestError.Positive :=
  ((failsOnly_truncated what 4).map _).map _

theorem failsOnly_takeU64 (what : String) : FailsOnly (takeU64 what) ManifestError.Positive :=
  ((failsOnly_truncated what 8).map _).map _

theorem failsOnly_takeI64 (what : String) : FailsOnly (takeI64 what) ManifestError.Positive :=
  (failsOnly_truncated what 8).map _

theorem failsOnly_takeChunkId : FailsOnly takeChunkId ManifestError.Positive := by
  intro input failure failed
  unfold takeChunkId at failed
  split at failed
  next taken =>
    cases failed
    exact failsOnly_truncated "chunk id" ChunkId.len _ _ taken
  next =>
    split at failed
    next => cases failed
    next =>
      cases failed
      exact Nat.zero_lt_succ 31

theorem failsOnly_takePath (index : Nat) : FailsOnly (takePath index) ManifestError.Positive := by
  apply (failsOnly_takeU32 "path length").bind
  intro pathLen
  apply (failsOnly_truncated "path bytes" pathLen.toNat).bind
  intro bytes
  unfold decodePath
  split
  next => exact failsOnly_pure _
  next =>
    intro input failure failed
    cases failed
    trivial

theorem failsOnly_takeFile (index : Nat) : FailsOnly (takeFile index) ManifestError.Positive := by
  apply (failsOnly_takePath index).bind
  intro path
  apply (failsOnly_takeU64 "file size").bind
  intro size
  apply (failsOnly_takeI64 "mtime seconds").bind
  intro mtimeSecs
  apply (failsOnly_takeU32 "mtime nanos").bind
  intro mtimeNanos
  apply (failsOnly_takeU32 "mode").bind
  intro mode
  apply (failsOnly_takeU32 "chunk count").bind
  intro chunkCount
  apply (failsOnly_many (fun _ => failsOnly_takeChunkId) chunkCount.toNat 0).bind
  intro chunks
  exact failsOnly_pure _

theorem failsOnly_takeManifest : FailsOnly takeManifest ManifestError.Positive := by
  apply ((failsOnly_truncated "snapshot id" 16).map _).bind
  intro snapshotId
  apply (failsOnly_takeI64 "created_at").bind
  intro createdAt
  apply (failsOnly_takeU32 "file count").bind
  intro fileCount
  apply (failsOnly_many failsOnly_takeFile fileCount.toNat 0).bind
  intro files
  exact failsOnly_pure _

theorem Manifest.positive_of_decode {bytes : Bytes} {error : ManifestError}
    (failed : Manifest.decode bytes = .error error) : error.Positive := by
  unfold Manifest.decode at failed
  split at failed
  next taken =>
    cases failed
    exact failsOnly_takeManifest _ _ taken
  next =>
    split at failed
    next => cases failed
    next =>
      cases failed
      trivial

end Failing

/-- What the decoder builds as it goes. -/
inductive Built where
  | file (entry : FileEntry)
  | chunk (id : ChunkId)

def Built.isFile : Built → Bool
  | .file _ => true
  | .chunk _ => false

abbrev ManifestMeter := MeteredReader ManifestError Built

/-- The readers of the decoder again, over one meter. -/
def meterPath (index : Nat) : ManifestMeter String := do
  let pathLen ← metered (takeU32 "path length")
  let bytes ← metered (take (.truncated "path bytes") pathLen.toNat)
  metered (decodePath index bytes)

def meterFile (index : Nat) : ManifestMeter FileEntry := record .file do
  let path ← meterPath index
  let size ← metered (takeU64 "file size")
  let mtimeSecs ← metered (takeI64 "mtime seconds")
  let mtimeNanos ← metered (takeU32 "mtime nanos")
  let mode ← metered (takeU32 "mode")
  let chunkCount ← metered (takeU32 "chunk count")
  let chunks ← manyMetered (fun _ => record .chunk (metered takeChunkId)) chunkCount.toNat 0
  return { path, size, mtimeSecs, mtimeNanos, mode, chunks }

def meterManifest : ManifestMeter Manifest := do
  let snapshotId ← metered takeUlid
  let createdAt ← metered (takeI64 "created_at")
  let fileCount ← metered (takeU32 "file count")
  let files ← manyMetered meterFile fileCount.toNat 0
  return { snapshotId, createdAt, files }

/-- The decoder with its meter where it stops: the input it has not consumed
and everything it has built, also when it fails. -/
def Manifest.decodeMetered (bytes : Bytes) : Except ManifestError Manifest × Meter Built :=
  match meterManifest ⟨bytes, []⟩ with
  | (.error error, meter) => (.error error, meter)
  | (.ok manifest, meter) =>
      (if meter.input = [] then .ok manifest else .error (.trailingBytes meter.input.length), meter)

section Metering

theorem erases_meterPath (index : Nat) : Erases (meterPath index) (takePath index) := by
  apply (erases_metered _).bind
  intro pathLen
  apply (erases_metered _).bind
  intro bytes
  exact erases_metered _

theorem erases_meterFile (index : Nat) : Erases (meterFile index) (takeFile index) := by
  apply Erases.record
  apply (erases_meterPath index).bind
  intro path
  apply (erases_metered _).bind
  intro size
  apply (erases_metered _).bind
  intro mtimeSecs
  apply (erases_metered _).bind
  intro mtimeNanos
  apply (erases_metered _).bind
  intro mode
  apply (erases_metered _).bind
  intro chunkCount
  apply (erases_many (fun _ => (erases_metered _).record _) chunkCount.toNat 0).bind
  intro chunks
  exact erases_pure _

/-- The meter changes nothing about the decoder. -/
theorem erases_meterManifest : Erases meterManifest takeManifest := by
  apply (erases_metered _).bind
  intro snapshotId
  apply (erases_metered _).bind
  intro createdAt
  apply (erases_metered _).bind
  intro fileCount
  apply (erases_many erases_meterFile fileCount.toNat 0).bind
  intro files
  exact erases_pure _

theorem Manifest.decodeMetered_fst (bytes : Bytes) :
    (Manifest.decodeMetered bytes).1 = Manifest.decode bytes := by
  have erased := erases_meterManifest ⟨bytes, []⟩
  unfold Manifest.decodeMetered Manifest.decode
  rw [← erased]
  rcases meterManifest ⟨bytes, []⟩ with ⟨result, meter⟩
  cases result with
  | error error => rfl
  | ok manifest => rfl

theorem Manifest.decodeMetered_snd (bytes : Bytes) :
    (Manifest.decodeMetered bytes).2 = (meterManifest ⟨bytes, []⟩).2 := by
  unfold Manifest.decodeMetered
  rcases meterManifest ⟨bytes, []⟩ with ⟨result, meter⟩
  cases result with
  | error error => rfl
  | ok manifest => rfl

theorem takes_u32 (what : String) : Takes (takeU32 what) 4 :=
  fun _ value _ taken => ⟨_, takeU32_ok taken, (ByteCodec.length_little 4 value.toNat).ge⟩

theorem takes_u64 (what : String) : Takes (takeU64 what) 8 :=
  fun _ value _ taken => ⟨_, takeU64_ok taken, (ByteCodec.length_little 8 value.toNat).ge⟩

theorem takes_i64 (what : String) : Takes (takeI64 what) 8 :=
  fun _ value _ taken => ⟨_, takeI64_ok taken, (length_toLeBytes value).ge⟩

theorem takes_ulid : Takes takeUlid 0 :=
  fun _ _ _ taken => ⟨_, takeUlid_ok taken, Nat.zero_le _⟩

theorem takes_chunkId : Takes takeChunkId 32 :=
  fun _ id _ taken => ⟨_, takeChunkId_ok taken, id.length_asBytes.ge⟩

theorem takes_bytes (what : String) (count : Nat) :
    Takes (take (ManifestError.truncated what) count) 0 :=
  fun _ _ _ taken => ⟨_, (take_ok taken).1, Nat.zero_le _⟩

theorem takes_decodePath (index : Nat) (bytes : Bytes) : Takes (decodePath index bytes) 0 := by
  intro input path rest taken
  unfold decodePath at taken
  cases read : fromUtf8? bytes with
  | none =>
      rw [read] at taken
      cases taken
  | some text =>
      rw [read] at taken
      obtain ⟨-, rfl⟩ := pure_ok taken
      exact ⟨[], rfl, Nat.le_refl _⟩

theorem spends_meterPath (index : Nat) : Spends 32 (meterPath index) (4 + (0 + 0)) := by
  apply (spends_metered (takes_u32 _)).bind
  intro pathLen
  apply (spends_metered (takes_bytes _ _)).bind
  intro bytes
  exact spends_metered (takes_decodePath index bytes)

theorem spends_meterFile (index : Nat) : Spends 32 (meterFile index) 0 := by
  apply Spends.record
  change Spends 32 _ (4 + (0 + 0) + (8 + (8 + (4 + (4 + (4 + (0 + 0)))))))
  apply (spends_meterPath index).bind
  intro path
  apply (spends_metered (takes_u64 _)).bind
  intro size
  apply (spends_metered (takes_i64 _)).bind
  intro mtimeSecs
  apply (spends_metered (takes_u32 _)).bind
  intro mtimeNanos
  apply (spends_metered (takes_u32 _)).bind
  intro mode
  apply (spends_metered (takes_u32 _)).bind
  intro chunkCount
  apply (spends_many (fun _ => (spends_metered takes_chunkId).record _) chunkCount.toNat 0).bind
  intro chunks
  exact spends_pure _

/-- Every entry and every chunk ID is paid for with 32 bytes of the input. -/
theorem spends_meterManifest : Spends 32 meterManifest (0 + (8 + (4 + (0 + 0)))) := by
  apply (spends_metered takes_ulid).bind
  intro snapshotId
  apply (spends_metered (takes_i64 _)).bind
  intro createdAt
  apply (spends_metered (takes_u32 _)).bind
  intro fileCount
  apply (spends_many spends_meterFile fileCount.toNat 0).bind
  intro files
  exact spends_pure _

end Metering

/-- The decoder refuses an encoding of any other length with the error that
says so, and it never builds more than its input pays for. -/
theorem manifest_decode_of_damaged {manifest : Manifest} {bytes : Bytes}
    (encoded : manifest.encode = .ok bytes) :
    (∀ front, front <+: bytes → front ≠ bytes →
        ∃ what needed, Manifest.decode front = .error (.truncated what needed)) ∧
      (∀ extra, extra ≠ [] →
        Manifest.decode (bytes ++ extra) = .error (.trailingBytes extra.length)) ∧
      ∀ input, ∃ meter, Manifest.decodeMetered input = (Manifest.decode input, meter) ∧
        meter.input <:+ input ∧
        (meter.built.countP fun item => item.isFile) ≤ input.length / 32 ∧
        (meter.built.countP fun item => !item.isFile) ≤ input.length / 32 ∧
        ∀ what needed, Manifest.decode input = .error (.truncated what needed) → 0 < needed := by
  refine ⟨?_, fun extra => Manifest.decode_trailing encoded, fun input => ?_⟩
  · rintro front ⟨back, rfl⟩ shorter
    apply Manifest.decode_prefix encoded rfl
    rintro rfl
    exact shorter (List.append_nil front).symm
  · have built : (meterManifest ⟨input, []⟩).2.built.length ≤ input.length / 32 := by
      rw [Nat.le_div_iff_mul_le (by decide), Nat.mul_comm]
      exact spends_meterManifest.built_le input
    refine ⟨_, Prod.ext (Manifest.decodeMetered_fst input) (Manifest.decodeMetered_snd input),
      (spends_meterManifest ⟨input, []⟩).1, List.countP_le_length.trans built,
      List.countP_le_length.trans built, ?_⟩
    intro what needed failed
    exact Manifest.positive_of_decode failed

/-- A file whose path takes two bytes. -/
def accentedManifest : Manifest where
  snapshotId := ⟨1⟩
  createdAt := 5
  files := [⟨"é", 3, 2, 1, 420, []⟩]

theorem accented_manifest_cut_in_path :
    ∃ what needed, Manifest.decode ((accentedManifest.encode.toOption.getD []).take 33) =
      .error (.truncated what needed) :=
  (manifest_decode_of_damaged (show accentedManifest.encode =
    .ok (accentedManifest.encode.toOption.getD []) by decide +kernel)).1 _
      (List.take_prefix 33 _) (by decide +kernel)

end Busyncr
