import Busyncr.Core.Compression
import Busyncr.Core.Crypto
import Busyncr.Lib.FirstOccurrence

/-!
The offline simulation of compression policies.

The simulator runs the policy of the real pipeline over the distinct chunks of
a tree and adds the framing and sealing overhead by arithmetic.  The constants
the thresholds are set to are floating-point numbers and stay parameters, like
the comparisons that read them.
-/

namespace Busyncr

open FirstOccurrence

inductive PolicyKind where
  | rawOnly
  | zstd3Always
  | zstd3
  | probeZstd3
  | zstd3Escalate
deriving DecidableEq

def defaultZstdLevel : Int32 := 3

def defaultEscalateLevel : Int32 := 9

/-- The thresholds the simulated policies are set to. -/
structure ThresholdConstants (Threshold : Type) where
  zero : Threshold
  infinity : Threshold
  defaultKeepThreshold : Threshold
  defaultProbeThreshold : Threshold
  defaultEscalateRatio : Threshold

section Simulation

variable {Threshold : Type} (constants : ThresholdConstants Threshold)

def PolicyConfig.default : PolicyConfig Threshold where
  useProbe := false
  escalate := false
  zstdLevel := defaultZstdLevel
  escalateLevel := defaultEscalateLevel
  keepThreshold := constants.defaultKeepThreshold
  probeThreshold := constants.defaultProbeThreshold
  escalateRatio := constants.defaultEscalateRatio

/-- `rawOnly` and `zstd3Always` are the keep-threshold at its two ends. -/
def PolicyKind.config : PolicyKind → PolicyConfig Threshold
  | .rawOnly => { PolicyConfig.default constants with keepThreshold := constants.zero }
  | .zstd3Always => { PolicyConfig.default constants with keepThreshold := constants.infinity }
  | .zstd3 => PolicyConfig.default constants
  | .probeZstd3 => { PolicyConfig.default constants with useProbe := true }
  | .zstd3Escalate => { PolicyConfig.default constants with escalate := true }

structure PolicyStoredStats where
  chunkCount : UInt64
  bytesIn : UInt64
  bytesOut : UInt64
  framedBytes : UInt64
  storedBytes : UInt64
  rawChunks : UInt64
  zstd3Chunks : UInt64
  escalatedChunks : UInt64
  escalationAttempts : UInt64
deriving DecidableEq

variable (compressors : Compressors) (tests : LengthTests Threshold)

def simulatePolicy (chunks : List Bytes) (kind : PolicyKind) (phase : Phase) :
    PolicyStoredStats :=
  let counters := countChunks compressors tests phase (kind.config constants) .zero chunks
  let chunkCount := counters.total
  let framedBytes := counters.bytesOut + chunkCount
  { chunkCount := chunkCount
    bytesIn := counters.bytesIn
    bytesOut := counters.bytesOut
    framedBytes := framedBytes
    storedBytes := framedBytes + chunkCount * UInt64.ofNat blobOverhead
    rawChunks := counters.raw
    zstd3Chunks := counters.zstd3
    escalatedChunks := counters.escalated
    escalationAttempts := counters.escalationAttempts }

end Simulation

/-- The plain chunk ID, under which the benchmark deduplicates. -/
def ChunkId.of (blake3 : Blake3) (content : Bytes) : ChunkId := ⟨blake3.hash content⟩

/-- The chunks the benchmark keeps: the first under every plain ID. -/
def uniqueChunks (blake3 : Blake3) (chunks : List Bytes) : List Bytes :=
  firsts (ChunkId.of blake3) chunks

/-- Whatever order the tree is walked in and the kept chunks are listed in, the
benchmark collects the distinct plaintexts. -/
theorem uniqueChunks_distinct {blake3 : Blake3} {walked unique : List Bytes}
    (injective : Set.InjOn (ChunkId.of blake3) {data | data ∈ walked})
    (listed : unique.Perm (uniqueChunks blake3 walked)) :
    unique.Nodup ∧ ∀ data, data ∈ unique ↔ data ∈ walked := by
  constructor
  · rw [listed.nodup_iff]
    exact (nodup_map_firsts walked).of_map _
  · intro data
    rw [listed.mem_iff]
    exact mem_firsts_of_injOn injective

section Counting

variable {Threshold : Type} (compressors : Compressors) (tests : LengthTests Threshold)
  (phase : Phase) (config : PolicyConfig Threshold)

theorem countChunks_concat (counters : PolicyCounters) (chunks : List Bytes) (chunk : Bytes) :
    countChunks compressors tests phase config counters (chunks ++ [chunk]) =
      (countChunks compressors tests phase config counters chunks).add
        (chooseCodec compressors tests chunk phase config .zero).2 := by
  simp only [countChunks, List.foldl_append, List.foldl_cons, List.foldl_nil]
  rw [chooseCodec_eq]

/-- The order of the chunks does not matter. -/
theorem countChunks_perm (counters : PolicyCounters) {left right : List Bytes}
    (perm : left.Perm right) :
    countChunks compressors tests phase config counters left =
      countChunks compressors tests phase config counters right := by
  have added : ∀ chunk counters, (chooseCodec compressors tests chunk phase config counters).2 =
      counters.add (chooseCodec compressors tests chunk phase config .zero).2 :=
    fun chunk counters => congrArg Prod.snd (chooseCodec_eq compressors tests chunk phase config
      counters)
  refine perm.foldl_eq' ?_ _
  intro first _ second _ counters
  calc (chooseCodec compressors tests second phase config
        (chooseCodec compressors tests first phase config counters).2).2
      = (counters.add (chooseCodec compressors tests first phase config .zero).2).add
          (chooseCodec compressors tests second phase config .zero).2 := by
        rw [added second (chooseCodec compressors tests first phase config counters).2,
          added first counters]
    _ = (counters.add (chooseCodec compressors tests second phase config .zero).2).add
          (chooseCodec compressors tests first phase config .zero).2 :=
        PolicyCounters.add_right_comm ..
    _ = (chooseCodec compressors tests first phase config
          (chooseCodec compressors tests second phase config counters).2).2 := by
        rw [added first (chooseCodec compressors tests second phase config counters).2,
          added second counters]

theorem PolicyCounters.total_add (left right : PolicyCounters) :
    (left.add right).total = left.total + right.total := by
  simp only [add, total]
  grind

theorem total_countChunks (chunks : List Bytes) :
    (countChunks compressors tests phase config .zero chunks).total = UInt64.ofNat chunks.length := by
  induction chunks using List.reverseRecOn with
  | nil => rfl
  | append_singleton chunks chunk inductionHypothesis =>
      rw [countChunks_concat, PolicyCounters.total_add, inductionHypothesis,
        (chooseCodec_spent compressors tests chunk phase config).1, List.length_append,
        UInt64.ofNat_add]
      rfl

theorem bytesOut_countChunks (chunks : List Bytes) :
    (countChunks compressors tests phase config .zero chunks).bytesOut =
      UInt64.ofNat (chunks.map fun chunk =>
        (chooseCodec compressors tests chunk phase config .zero).1.2.length).sum := by
  induction chunks using List.reverseRecOn with
  | nil => rfl
  | append_singleton chunks chunk inductionHypothesis =>
      rw [countChunks_concat, PolicyCounters.add, inductionHypothesis,
        (chooseCodec_spent compressors tests chunk phase config).2.2]
      simp

end Counting

/-- The stored volume is the length of the sealed blobs. -/
theorem simulatePolicy_storedBytes {Threshold : Type} (constants : ThresholdConstants Threshold)
    (compressors : Compressors) (tests : LengthTests Threshold) (chunks : List Bytes)
    (kind : PolicyKind) (phase : Phase) :
    (simulatePolicy constants compressors tests chunks kind phase).storedBytes =
      UInt64.ofNat (chunks.map fun chunk =>
        1 + (chooseCodec compressors tests chunk phase (kind.config constants) .zero).1.2.length +
          blobOverhead).sum := by
  have lengths : (chunks.map fun chunk =>
      1 + (chooseCodec compressors tests chunk phase (kind.config constants) .zero).1.2.length +
        blobOverhead).sum =
      (chunks.map fun chunk => (chooseCodec compressors tests chunk phase (kind.config constants)
        .zero).1.2.length).sum + chunks.length + chunks.length * blobOverhead := by
    induction chunks with
    | nil => rfl
    | cons chunk rest inductionHypothesis =>
        simp only [List.map_cons, List.sum_cons, inductionHypothesis, List.length_cons,
          Nat.add_mul]
        omega
  rw [lengths, UInt64.ofNat_add, UInt64.ofNat_add, UInt64.ofNat_mul]
  simp only [simulatePolicy, total_countChunks, bytesOut_countChunks]

end Busyncr
