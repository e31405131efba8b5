import Busyncr.Core.Index
import Busyncr.Core.Manifest
import Busyncr.Lib.Saturating
import Mathlib.Data.Finset.Card

/-!
The offline benchmark: what a backup of a tree would cost for every candidate
chunk size.

The integer arithmetic wraps at 64 bits, and an index out of range shows as a
missing result.  The ratios of a report are floating-point numbers that
nothing reads again; they are left out.
-/

namespace Busyncr

/-- The retention grid as (first hour, cell width in hours). -/
def retentionTiers : List (UInt64 × UInt64) := [(0, 3), (24, 24), (96, 96), (384, 384)]

/-- Add the cells of the tiers left, each up to the next one and the horizon. -/
def addCells (horizonHours : UInt64) : (cells : UInt64) → List (UInt64 × UInt64) → UInt64
  | cells, [] => cells
  | cells, (start, width) :: rest =>
      let stop := (rest.head?.map Prod.fst).getD (UInt64.ofNat (2 ^ 64 - 1))
      let upper := min stop horizonHours
      addCells horizonHours
        (if start < upper then cells + Saturating.divCeil (upper - start) width else cells) rest

/-- The snapshots retained at steady state over a history of so many days. -/
def steadyStateSnapshots (horizonDays : UInt64) : UInt64 :=
  addCells (Saturating.mul horizonDays 24) 0 retentionTiers

example : steadyStateSnapshots 365 = 36 := by decide

inductive ChunkingError (IoError : Type) where
  | invalidConfig (reason : String)
  | io (source : IoError)
  | internal (reason : String)
deriving DecidableEq

inductive BenchError (IoError : Type) where
  | chunking (path : String) (source : ChunkingError IoError)
  | io (path : Bytes) (source : IoError)
  | notADirectory (path : Bytes)
  | nonUtf8Path (path : Bytes)
  | candidateMismatch (path : String) (got expected : Nat)
deriving DecidableEq

/-- The sizes a chunker aims for and keeps to. -/
structure ChunkerConfig where
  minSize : UInt64
  targetSize : UInt64
  maxSize : UInt64
  minLeTarget : minSize ≤ targetSize
  targetLeMax : targetSize ≤ maxSize
deriving DecidableEq

/-- Identity and length of a chunk. -/
structure ChunkMeta where
  id : ChunkId
  len : UInt64
deriving DecidableEq

/-- The chunks of one file, for every candidate. -/
structure FileChunking where
  relPath : String
  fileBytes : UInt64
  perCandidate : List (List ChunkMeta)
deriving DecidableEq

structure BaselineOverlap where
  baselineUniqueChunks : UInt64
  sharedUniqueChunks : UInt64
deriving DecidableEq

structure CandidateReport where
  targetSize : UInt64
  minSize : UInt64
  maxSize : UInt64
  totalChunks : UInt64
  uniqueChunks : UInt64
  totalBytes : UInt64
  uniqueBytes : UInt64
  medianChunkSize : UInt64
  p95ChunkSize : UInt64
  indexBytes : UInt64
  manifestBytesPerSnapshot : UInt64
  projectedBookkeepingBytes : UInt64
  baseline : Option BaselineOverlap
deriving DecidableEq

structure BenchReport where
  root : String
  baselineRoot : Option String
  filesScanned : UInt64
  totalBytes : UInt64
  snapshotsProjected : UInt64
  candidates : List CandidateReport
deriving DecidableEq

/-- Nearest-rank percentile over a sorted list; zero for an empty one. -/
def nearestRank (sorted : List UInt64) (percent : UInt64) : Option UInt64 :=
  if sorted.isEmpty then some 0
  else
    let rank := max (Saturating.divCeil (UInt64.ofNat sorted.length * percent) 100) 1
    sorted[(rank - 1).toNat]?

/-- Add the chunk IDs of a candidate to those collected before. -/
def collectIds (candidate : Nat) (ids : Finset ChunkId) :
    List FileChunking → Option (Finset ChunkId)
  | [] => some ids
  | file :: rest =>
      match file.perCandidate[candidate]? with
      | none => none
      | some metas =>
          collectIds candidate (metas.foldl (fun ids item => insert item.id ids) ids) rest

/-- The distinct chunk IDs of a candidate. -/
def uniqueIds (files : List FileChunking) (candidate : Nat) : Option (Finset ChunkId) :=
  collectIds candidate ∅ files

/-- Every file carries one result for each candidate. -/
def checkCandidateCounts {IoError : Type} (expected : Nat) :
    List FileChunking → Except (BenchError IoError) Unit
  | [] => .ok ()
  | file :: rest =>
      if file.perCandidate.length ≠ expected then
        .error (.candidateMismatch file.relPath file.perCandidate.length expected)
      else checkCandidateCounts expected rest

/-- What the loop over the files has counted for one candidate. -/
structure Tally where
  lens : List UInt64
  unique : Finset ChunkId
  uniqueBytes : UInt64
  manifestBytes : UInt64

namespace Tally

def start : Tally := ⟨[], ∅, 0, UInt64.ofNat manifestHeaderBytes⟩

def addChunk (tally : Tally) (item : ChunkMeta) : Tally :=
  { tally with
    lens := tally.lens ++ [item.len]
    unique := insert item.id tally.unique
    uniqueBytes :=
      if item.id ∈ tally.unique then tally.uniqueBytes else tally.uniqueBytes + item.len }

def addFile (tally : Tally) (relPath : String) (metas : List ChunkMeta) : Tally :=
  metas.foldl addChunk
    { tally with
      manifestBytes := tally.manifestBytes + (UInt64.ofNat manifestFileFixedBytes +
        UInt64.ofNat (utf8Bytes relPath).length +
        UInt64.ofNat ChunkId.len * UInt64.ofNat metas.length) }

def addFiles (candidate : Nat) (tally : Tally) : List FileChunking → Option Tally
  | [] => some tally
  | file :: rest =>
      match file.perCandidate[candidate]? with
      | none => none
      | some metas => addFiles candidate (tally.addFile file.relPath metas) rest

end Tally

/-- The overlap of the counted chunks with those of the baseline. -/
def baselineOverlap (unique baseline : Finset ChunkId) : BaselineOverlap where
  baselineUniqueChunks := UInt64.ofNat baseline.card
  sharedUniqueChunks := UInt64.ofNat (unique ∩ baseline).card

/-- `sort_unstable` on the lengths. -/
def sortLens (lens : List UInt64) : List UInt64 :=
  lens.mergeSort fun left right => decide (left ≤ right)

theorem perm_sortLens (lens : List UInt64) : (sortLens lens).Perm lens :=
  List.mergeSort_perm lens _

/-- The figures of one candidate, from what the loop has counted. -/
def Tally.figures (tally : Tally) (config : ChunkerConfig) (snapshots : UInt64)
    (baseline : Option (Finset ChunkId)) (median p95 : UInt64) : CandidateReport :=
  let indexBytes := UInt64.ofNat tally.unique.card * UInt64.ofNat IndexEntry.wireSize
  { targetSize := config.targetSize
    minSize := config.minSize
    maxSize := config.maxSize
    totalChunks := UInt64.ofNat tally.lens.length
    uniqueChunks := UInt64.ofNat tally.unique.card
    totalBytes := tally.lens.foldl (fun total len => total + len) 0
    uniqueBytes := tally.uniqueBytes
    medianChunkSize := median
    p95ChunkSize := p95
    indexBytes := indexBytes
    manifestBytesPerSnapshot := tally.manifestBytes
    projectedBookkeepingBytes := indexBytes + snapshots * tally.manifestBytes
    baseline := baseline.map (baselineOverlap tally.unique) }

/-- The report of one candidate. -/
def candidateReport (config : ChunkerConfig) (snapshots : UInt64) (tally : Tally)
    (baseline : Option (Finset ChunkId)) : Option CandidateReport :=
  let sorted := sortLens tally.lens
  match nearestRank sorted 50, nearestRank sorted 95 with
  | some median, some p95 => some (tally.figures config snapshots baseline median p95)
  | _, _ => none

/-- The distinct chunk IDs of the baseline, where there is one. -/
def baselineIds (candidate : Nat) :
    Option (String × List FileChunking) → Option (Option (Finset ChunkId))
  | none => some none
  | some (_, files) => (uniqueIds files candidate).map some

/-- One round of the loop over the candidates. -/
def measureCandidate (files : List FileChunking) (snapshots : UInt64)
    (baseline : Option (String × List FileChunking)) (candidate : Nat)
    (config : ChunkerConfig) : Option CandidateReport :=
  match Tally.start.addFiles candidate files with
  | none => none
  | some tally =>
      match baselineIds candidate baseline with
      | none => none
      | some ids => candidateReport config snapshots tally ids

def measureCandidates (files : List FileChunking) (snapshots : UInt64)
    (baseline : Option (String × List FileChunking)) :
    Nat → List ChunkerConfig → Option (List CandidateReport)
  | _, [] => some []
  | candidate, config :: rest =>
      match measureCandidate files snapshots baseline candidate config with
      | none => none
      | some report =>
          match measureCandidates files snapshots baseline (candidate + 1) rest with
          | none => none
          | some reports => some (report :: reports)

def checkBaseline {IoError : Type} (expected : Nat) :
    Option (String × List FileChunking) → Except (BenchError IoError) Unit
  | none => .ok ()
  | some (_, files) => checkCandidateCounts expected files

/-- The report over all candidates; missing where an index is out of range. -/
def buildReport {IoError : Type} (root : String) (files : List FileChunking)
    (configs : List ChunkerConfig) (snapshots : UInt64)
    (baseline : Option (String × List FileChunking)) :
    Option (Except (BenchError IoError) BenchReport) :=
  match checkCandidateCounts configs.length files with
  | .error error => some (.error error)
  | .ok () =>
      match checkBaseline configs.length baseline with
      | .error error => some (.error error)
      | .ok () =>
          match measureCandidates files snapshots baseline 0 configs with
          | none => none
          | some candidates =>
              some (.ok {
                root := root
                baselineRoot := baseline.map Prod.fst
                filesScanned := UInt64.ofNat files.length
                totalBytes := files.foldl (fun total file => total + file.fileBytes) 0
                snapshotsProjected := snapshots
                candidates := candidates })

end Busyncr
