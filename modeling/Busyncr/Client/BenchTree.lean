import Busyncr.Client.Source
import Busyncr.Core.DedupAccounting
import Busyncr.Core.FanOutRuns

/-!
Benchmarking a folder tree: the walk, and the two ways of chunking its files.

One way fans every file out to all candidates and keeps identities and lengths
only; the other reads every file on its own and keeps the chunks.  The walk
goes through a directory in the order of its listing and sorts the files
afterwards.
-/

namespace Busyncr.Client

/-- A file found by the walk: its path below the root, its full path, and its
content. -/
structure BenchFile where
  rel : String
  path : Bytes
  content : Bytes
deriving DecidableEq

/-- The path of the parts below the root, if all of them are UTF-8. -/
def relPath? (parts : List FileName) : Option String :=
  (parts.mapM fun part => fromUtf8? part.bytes).map ("/".intercalate ·)

section Walk

variable {IoError : Type}

mutual

/-- `collect_files` of the benchmark, below the given path. -/
def benchWalk (path : Bytes) (parts : List FileName) :
    SourceNode → Except (BenchError IoError) (List BenchFile)
  | .file stored =>
      match relPath? parts with
      | none => .error (.nonUtf8Path path)
      | some rel => .ok [⟨rel, path, stored.content⟩]
  | .dir entries => benchEntries path parts entries
  | .other => .ok []

def benchEntries (path : Bytes) (parts : List FileName) :
    List (FileName × SourceNode) → Except (BenchError IoError) (List BenchFile)
  | [] => .ok []
  | (name, node) :: rest =>
      match benchWalk (path ++ 0x2f :: name.bytes) (parts ++ [name]) node with
      | .error error => .error error
      | .ok files =>
          match benchEntries path parts rest with
          | .error error => .error error
          | .ok others => .ok (files ++ others)

end

/-- Files in the order of their relative paths. -/
def relOrder (files : List BenchFile) : List BenchFile :=
  files.mergeSort fun left right => (compare (utf8Bytes left.rel) (utf8Bytes right.rel)).isLE

/-- The files of a tree in the order they are chunked in. -/
def benchFilesOf (root : Root) : Except (BenchError IoError) (List BenchFile) :=
  match root.node with
  | some (.dir entries) =>
      match benchEntries root.path [] entries with
      | .error error => .error error
      | .ok files => .ok (relOrder files)
  | _ => .error (.notADirectory root.path)

end Walk

section Chunking

variable (cdc : Cdc) (blake3 : Blake3)

/-- One file fanned out, however its reads and the threads are scheduled; the
reads and the chunkers do not fail. -/
def FileFanned (configs : List ChunkerConfig) (file : BenchFile) (chunking : FileChunking) :
    Prop :=
  ∃ (source : Source Unit) (fan : FanOut), source.content = file.content ∧
    source.failure = none ∧ FanOutReturns cdc blake3 source configs true (.ok fan) ∧
      chunking = ⟨file.rel, fan.bytesRead, fan.perCandidate⟩

/-- What `chunk_tree` can return. -/
def ChunkTreeReturns {IoError : Type} (root : Root) (configs : List ChunkerConfig)
    (result : Except (BenchError IoError) (List FileChunking)) : Prop :=
  match (benchFilesOf root : Except (BenchError IoError) (List BenchFile)) with
  | .error error => result = .error error
  | .ok files => ∃ chunkings,
      List.Forall₂ (FileFanned cdc blake3 configs) files chunkings ∧ result = .ok chunkings

/-- The chunks of one file, with their bytes. -/
structure FileChunkingFull where
  relPath : String
  chunks : List Chunk
deriving DecidableEq

/-- `chunk_tree_with_bytes`, without the time it measures. -/
def chunkTreeWithBytes {IoError : Type} (root : Root) (config : ChunkerConfig) :
    Except (BenchError IoError) (List FileChunkingFull) :=
  match benchFilesOf root with
  | .error error => .error error
  | .ok files =>
      .ok (files.map fun file => ⟨file.rel, chunkReader cdc blake3 config file.content⟩)

/-- The identities and lengths of a file's chunks. -/
def fileChunkingMeta (full : FileChunkingFull) : FileChunking :=
  let metas := full.chunks.map Chunk.toMeta
  { relPath := full.relPath
    fileBytes := metas.foldl (fun total item => total + item.len) 0
    perCandidate := [metas] }

end Chunking

section Agreement

variable {cdc : Cdc} {blake3 : Blake3}

theorem sum_len_chunksFrom (pieces : List Bytes) (offset : Nat) :
    ((chunksFrom blake3 offset pieces).map Chunk.len).sum = pieces.flatten.length := by
  induction pieces generalizing offset with
  | nil => rfl
  | cons data rest inductionHypothesis =>
      simp [chunksFrom, inductionHypothesis, Chunk.len]

/-- The bytes of the chunks are those of the content. -/
theorem foldl_len_metasOf (tiles : cdc.Tiles) (content : Bytes) (config : ChunkerConfig) :
    (metasOf cdc blake3 content config).foldl (fun total item => total + item.len) 0 =
      UInt64.ofNat content.length := by
  rw [Saturating.foldl_add_eq ChunkMeta.len]
  have count : ∀ chunks : List Chunk, UInt64.ofNat
      (((chunks.map Chunk.toMeta).map fun item => item.len.toNat).sum) =
        UInt64.ofNat ((chunks.map Chunk.len).sum) := by
    intro chunks
    induction chunks with
    | nil => rfl
    | cons chunk rest inductionHypothesis =>
        simp only [List.map_cons, List.sum_cons, UInt64.ofNat_add, inductionHypothesis,
          Chunk.toMeta, UInt64.ofNat_toNat]
  rw [metasOf, count, chunkReader, sum_len_chunksFrom, tiles, UInt64.zero_add]

/-- A file fanned out to one candidate is the file read on its own. -/
theorem fileChunkingMeta_of_fanned (tiles : cdc.Tiles) {config : ChunkerConfig} {file : BenchFile}
    {chunking : FileChunking} (fanned : FileFanned cdc blake3 [config] file chunking) :
    fileChunkingMeta ⟨file.rel, chunkReader cdc blake3 config file.content⟩ = chunking := by
  obtain ⟨source, fan, content, fine, returned, rfl⟩ := fanned
  have whole := ((fanOutReturns_sound returned).success fan rfl).2
  rw [whole, content, wholeFanOut, fileChunkingMeta]
  congr 1
  exact foldl_len_metasOf tiles file.content config

/-- Both ways of chunking a tree agree, for one candidate. -/
theorem chunkTree_eq_withBytes {IoError : Type} (tiles : cdc.Tiles) {root : Root}
    {config : ChunkerConfig} {result : Except (BenchError IoError) (List FileChunking)}
    (returned : ChunkTreeReturns cdc blake3 root [config] result) :
    result = (chunkTreeWithBytes cdc blake3 root config).map (List.map fileChunkingMeta) := by
  unfold ChunkTreeReturns at returned
  unfold chunkTreeWithBytes
  split at returned
  next error failed =>
    rw [returned]
    rfl
  next files found =>
    obtain ⟨chunkings, fanned, rfl⟩ := returned
    simp only [Except.map, List.map_map, Except.ok.injEq]
    clear found
    induction fanned with
    | nil => rfl
    | cons head tail inductionHypothesis =>
        rw [List.map_cons, ← inductionHypothesis, ← fileChunkingMeta_of_fanned tiles head]
        rfl

/-- Fanning out gives every candidate the chunks of a run on its own, in every
schedule; every schedule comes to its end; and a size report does not depend
on the way the tree was chunked. -/
theorem fan_out_is_standalone (cdc : Cdc) (blake3 : Blake3) (tiles : cdc.Tiles)
    (IoError : Type) :
    (∀ (source : Source IoError) (configs : List ChunkerConfig) (quiet : Bool)
      (result : Except (ChunkingError IoError) FanOut),
        FanOutReturns cdc blake3 source configs quiet result →
          FanOutSound cdc blake3 configs source quiet result) ∧
    (∀ (source : Source IoError) (configs : List ChunkerConfig)
      (actions : List (FanOutAction IoError)) (state : FanOutState IoError),
        Transition.run (fanOutStep cdc blake3) (.start configs source) actions = some state →
          FanOutRunsOn cdc blake3 configs source actions state) ∧
    ∀ (root : Root) (config : ChunkerConfig) (files : List FileChunking) (label : String)
      (snapshots : UInt64) (baseline : Option (String × List FileChunking)),
        ChunkTreeReturns cdc blake3 root [config]
          (.ok files : Except (BenchError IoError) (List FileChunking)) →
        ∃ full, (chunkTreeWithBytes cdc blake3 root config :
            Except (BenchError IoError) (List FileChunkingFull)) = .ok full ∧
          (buildReport label files [config] snapshots baseline :
            Option (Except (BenchError IoError) BenchReport)) =
          buildReport label (full.map fileChunkingMeta) [config] snapshots baseline := by
  refine ⟨fun source configs quiet result => fanOutReturns_sound,
    fun source configs actions state => fanOut_runsOn, ?_⟩
  intro root config files label snapshots baseline returned
  have same := chunkTree_eq_withBytes tiles returned
  cases full : (chunkTreeWithBytes cdc blake3 root config :
      Except (BenchError IoError) (List FileChunkingFull)) with
  | error error =>
      rw [full] at same
      cases same
  | ok chunked =>
      rw [full] at same
      cases same
      exact ⟨chunked, rfl, rfl⟩

/-- BLAKE3 where the only input hashed without a key is `abc`. -/
def blake3OnAbc : Blake3 where
  hash _ := #v[0x64, 0x37, 0xb3, 0xac, 0x38, 0x46, 0x51, 0x33, 0xff, 0xb6, 0x3b, 0x75,
    0x27, 0x3a, 0x8d, 0xb5, 0x48, 0xc5, 0x58, 0x46, 0x5d, 0x79, 0xdb, 0x03,
    0xfd, 0x35, 0x9c, 0x6c, 0xd5, 0xbd, 0x9d, 0x85]
  keyedHash := Blake3.onEmpty.keyedHash

/-- The bytes `abc` in two reads, the second of them interrupted once. -/
def fragmentedSource : Source Unit where
  reads := [.bytes [0x61] (by decide) (by decide), .interrupted,
    .bytes [0x62, 0x63] (by decide) (by decide)]
  failure := none

theorem fragmented_source_fans_out :
    ∃ fan, FanOutReturns wholeCdc blake3OnAbc fragmentedSource [benchConfig, benchConfig] true
        (.ok fan) ∧
      fan.bytesRead = 3 ∧
      fan.perCandidate = List.replicate 2 [⟨⟨blake3OnAbc.hash [0x61, 0x62, 0x63]⟩, 3⟩] := by
  obtain ⟨standalone, runsOn, -⟩ :=
    fan_out_is_standalone wholeCdc blake3OnAbc wholeCdc_tiles Unit
  obtain ⟨actions, final, result, executed, returned, quiet⟩ :=
    (runsOn fragmentedSource [benchConfig, benchConfig] [] _ rfl).completes
  have returns : FanOutReturns wholeCdc blake3OnAbc fragmentedSource [benchConfig, benchConfig]
      true result := by
    unfold FanOutReturns
    rw [if_neg (List.cons_ne_nil _ _)]
    exact ⟨actions, final, executed, returned, fun _ => quiet⟩
  obtain rfl := (standalone _ _ _ _ returns).standalone rfl rfl
  exact ⟨_, returns, by decide, rfl⟩

end Agreement

end Busyncr.Client
