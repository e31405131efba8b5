import Busyncr.Core.Identity

/-!
The codec byte in front of every chunk plaintext, and the policy that chooses
the codec.

The compressors belong to libraries and are parameters.  The policy compares
lengths with configured thresholds in floating point; the three comparisons
are parameters too, so that nothing depends on how they come out.
-/

namespace Busyncr

inductive CodecId where
  | raw
  | zstd
deriving DecidableEq

inductive CompressionError where
  | empty
  | unknownCodec (byte : UInt8)
  | compress
  | decompress
deriving DecidableEq

def CodecId.toByte : CodecId → UInt8
  | .raw => 0
  | .zstd => 1

def CodecId.fromByte (byte : UInt8) : Except CompressionError CodecId :=
  if byte = 0 then .ok .raw
  else if byte = 1 then .ok .zstd
  else .error (.unknownCodec byte)

/-- zstd at a level, and the length of the lz4 block of a chunk. -/
structure Compressors where
  zstdEncode : Bytes → Int32 → Option Bytes
  zstdDecode : Bytes → Option Bytes
  lz4Len : Bytes → Nat

/-- zstd decoding undoes a successful encoding at any level. -/
def Compressors.Inverts (compressors : Compressors) : Prop :=
  ∀ {data level output}, compressors.zstdEncode data level = some output →
    compressors.zstdDecode output = some data

/-- Prepend the codec byte. -/
def frame (codec : CodecId) (payload : Bytes) : Bytes := codec.toByte :: payload

def unframe : Bytes → Except CompressionError (CodecId × Bytes)
  | [] => .error .empty
  | byte :: rest =>
      match CodecId.fromByte byte with
      | .error error => .error error
      | .ok codec => .ok (codec, rest)

/-- Which backup of the set is running; escalation is off in the first. -/
inductive Phase where
  | initialFull
  | incremental
deriving DecidableEq

/-- The policy's settings, over the type its thresholds are taken from. -/
structure PolicyConfig (Threshold : Type) where
  useProbe : Bool
  escalate : Bool
  zstdLevel : Int32
  escalateLevel : Int32
  keepThreshold : Threshold
  probeThreshold : Threshold
  escalateRatio : Threshold

/-- The comparisons of lengths with thresholds, in floating point. -/
structure LengthTests (Threshold : Type) where
  /-- The quotient of two lengths is below a threshold. -/
  ratioBelow : Nat → Nat → Threshold → Bool
  /-- A length exceeds another scaled by a threshold. -/
  exceedsScaled : Nat → Nat → Threshold → Bool
  /-- The quotient of two lengths reaches a threshold. -/
  ratioReaches : Nat → Nat → Threshold → Bool

structure PolicyCounters where
  raw : UInt64
  zstd3 : UInt64
  escalated : UInt64
  escalationAttempts : UInt64
  bytesIn : UInt64
  bytesOut : UInt64
deriving DecidableEq

/-- The counters at the start of a run. -/
def PolicyCounters.zero : PolicyCounters := ⟨0, 0, 0, 0, 0, 0⟩

section Policy

variable {Threshold : Type} (compressors : Compressors) (tests : LengthTests Threshold)

def compressZstd (data : Bytes) (level : Int32) : Except CompressionError Bytes :=
  match compressors.zstdEncode data level with
  | none => .error .compress
  | some output => .ok output

def decompressZstd (data : Bytes) : Except CompressionError Bytes :=
  match compressors.zstdDecode data with
  | none => .error .decompress
  | some output => .ok output

def decodeChunk (framed : Bytes) : Except CompressionError Bytes :=
  match unframe framed with
  | .error error => .error error
  | .ok (.raw, payload) => .ok payload
  | .ok (.zstd, payload) => decompressZstd compressors payload

/-- Store a non-empty chunk as it is. -/
def keepRaw (chunk : Bytes) (counters : PolicyCounters) : (CodecId × Bytes) × PolicyCounters :=
  ((.raw, chunk),
    { counters with
      raw := counters.raw + 1
      bytesOut := counters.bytesOut + UInt64.ofNat chunk.length })

/-- Whether the lz4 probe finds the chunk not worth compressing. -/
def probeRejects (config : PolicyConfig Threshold) (chunk : Bytes) : Bool :=
  config.useProbe &&
    tests.ratioBelow chunk.length (max (compressors.lz4Len chunk) 1) config.probeThreshold

/-- Whether the baseline result is good enough to try the higher level. -/
def escalates (config : PolicyConfig Threshold) (phase : Phase) (chunk zstd3 : Bytes) : Bool :=
  config.escalate && decide (phase = .incremental) &&
    tests.ratioReaches chunk.length zstd3.length config.escalateRatio

/-- Keep the baseline result. -/
def keepBaseline (zstd3 : Bytes) (counters : PolicyCounters) :
    (CodecId × Bytes) × PolicyCounters :=
  ((.zstd, zstd3),
    { counters with
      zstd3 := counters.zstd3 + 1
      bytesOut := counters.bytesOut + UInt64.ofNat zstd3.length })

/-- Try the higher level; keep the shorter result. -/
def escalateOver (config : PolicyConfig Threshold) (chunk zstd3 : Bytes)
    (counters : PolicyCounters) : (CodecId × Bytes) × PolicyCounters :=
  let attempted := { counters with escalationAttempts := counters.escalationAttempts + 1 }
  match compressZstd compressors chunk config.escalateLevel with
  | .error _ => keepBaseline zstd3 attempted
  | .ok zstd9 =>
      if zstd9.length < zstd3.length then
        ((.zstd, zstd9),
          { attempted with
            escalated := attempted.escalated + 1
            bytesOut := attempted.bytesOut + UInt64.ofNat zstd9.length })
      else keepBaseline zstd3 attempted

/-- Choose a codec and payload for one chunk, and count it. -/
def chooseCodec (chunk : Bytes) (phase : Phase) (config : PolicyConfig Threshold)
    (counters : PolicyCounters) : (CodecId × Bytes) × PolicyCounters :=
  let seen := { counters with bytesIn := counters.bytesIn + UInt64.ofNat chunk.length }
  if chunk = [] then ((.raw, chunk), { seen with raw := seen.raw + 1 })
  else if probeRejects compressors tests config chunk then keepRaw chunk seen
  else
    match compressZstd compressors chunk config.zstdLevel with
    | .error _ => keepRaw chunk seen
    | .ok zstd3 =>
        if tests.exceedsScaled zstd3.length chunk.length config.keepThreshold then
          keepRaw chunk seen
        else if escalates tests config phase chunk zstd3 then
          escalateOver compressors config chunk zstd3 seen
        else keepBaseline zstd3 seen

/-- The plaintext to seal for one chunk. -/
def encodeChunk (chunk : Bytes) (phase : Phase) (config : PolicyConfig Threshold)
    (counters : PolicyCounters) : Bytes × PolicyCounters :=
  let ((codec, payload), counted) := chooseCodec compressors tests chunk phase config counters
  (frame codec payload, counted)

/-- The counters after the policy went through some chunks. -/
def countChunks (phase : Phase) (config : PolicyConfig Threshold) (counters : PolicyCounters)
    (chunks : List Bytes) : PolicyCounters :=
  chunks.foldl (fun counters chunk =>
    (chooseCodec compressors tests chunk phase config counters).2) counters

end Policy

/-- Chunks counted, however they were stored. -/
def PolicyCounters.total (counters : PolicyCounters) : UInt64 :=
  counters.raw + counters.zstd3 + counters.escalated

def PolicyCounters.add (left right : PolicyCounters) : PolicyCounters where
  raw := left.raw + right.raw
  zstd3 := left.zstd3 + right.zstd3
  escalated := left.escalated + right.escalated
  escalationAttempts := left.escalationAttempts + right.escalationAttempts
  bytesIn := left.bytesIn + right.bytesIn
  bytesOut := left.bytesOut + right.bytesOut

@[simp]
theorem PolicyCounters.zero_add (counters : PolicyCounters) :
    PolicyCounters.zero.add counters = counters := by
  simp [add, zero]

theorem PolicyCounters.add_right_comm (counters left right : PolicyCounters) :
    (counters.add left).add right = (counters.add right).add left := by
  simp only [add, mk.injEq]
  grind

/-- The counters after a chunk's length was read. -/
def PolicyCounters.reading (chunk : Bytes) (counters : PolicyCounters) : PolicyCounters :=
  { counters with bytesIn := counters.bytesIn + UInt64.ofNat chunk.length }

/-- A choice made without a look at the counters that counts the chunk once,
with the length it came with and the length it is stored at. -/
def CountsOnce (chunk : Bytes)
    (choice : PolicyCounters → (CodecId × Bytes) × PolicyCounters) : Prop :=
  ∃ chosen spent, (∀ counters, choice counters = (chosen, counters.add spent)) ∧
    spent.total = 1 ∧ spent.bytesIn = UInt64.ofNat chunk.length ∧
    spent.bytesOut = UInt64.ofNat chosen.2.length

section Counting

variable {Threshold : Type} (compressors : Compressors) (tests : LengthTests Threshold)
  (chunk : Bytes) (phase : Phase) (config : PolicyConfig Threshold)

theorem countsOnce_keepRaw :
    CountsOnce chunk fun counters => keepRaw chunk (counters.reading chunk) :=
  ⟨(.raw, chunk), ⟨1, 0, 0, 0, .ofNat chunk.length, .ofNat chunk.length⟩,
    fun counters => by simp [keepRaw, PolicyCounters.add, PolicyCounters.reading], rfl, rfl, rfl⟩

theorem countsOnce_keepBaseline (zstd3 : Bytes) :
    CountsOnce chunk fun counters => keepBaseline zstd3 (counters.reading chunk) :=
  ⟨(.zstd, zstd3), ⟨0, 1, 0, 0, .ofNat chunk.length, .ofNat zstd3.length⟩,
    fun counters => by simp [keepBaseline, PolicyCounters.add, PolicyCounters.reading],
    rfl, rfl, rfl⟩

theorem countsOnce_escalateOver (zstd3 : Bytes) :
    CountsOnce chunk fun counters =>
      escalateOver compressors config chunk zstd3 (counters.reading chunk) := by
  have kept : CountsOnce chunk fun counters => keepBaseline zstd3
      { counters.reading chunk with
        escalationAttempts := counters.escalationAttempts + 1 } :=
    ⟨(.zstd, zstd3), ⟨0, 1, 0, 1, .ofNat chunk.length, .ofNat zstd3.length⟩,
      fun counters => by simp [keepBaseline, PolicyCounters.add, PolicyCounters.reading],
      rfl, rfl, rfl⟩
  unfold escalateOver
  split
  next => exact kept
  next zstd9 _ =>
    split
    next =>
      exact ⟨(.zstd, zstd9), ⟨0, 0, 1, 1, .ofNat chunk.length, .ofNat zstd9.length⟩,
        fun counters => by simp [PolicyCounters.add, PolicyCounters.reading], rfl, rfl, rfl⟩
    next => exact kept

theorem countsOnce_chooseCodec :
    CountsOnce chunk (chooseCodec compressors tests chunk phase config) := by
  unfold chooseCodec
  split
  next empty =>
    exact ⟨(.raw, chunk), ⟨1, 0, 0, 0, .ofNat chunk.length, 0⟩,
      fun counters => by simp [PolicyCounters.add], rfl, rfl, by simp [empty]⟩
  next =>
    split
    next => exact countsOnce_keepRaw chunk
    next =>
      split
      next => exact countsOnce_keepRaw chunk
      next zstd3 _ =>
        split
        next => exact countsOnce_keepRaw chunk
        next =>
          split
          next => exact countsOnce_escalateOver compressors chunk config zstd3
          next => exact countsOnce_keepBaseline chunk zstd3

/-- The policy's choice for a chunk, and what it adds to the counters. -/
theorem chooseCodec_eq (counters : PolicyCounters) :
    chooseCodec compressors tests chunk phase config counters =
      ((chooseCodec compressors tests chunk phase config .zero).1,
        counters.add (chooseCodec compressors tests chunk phase config .zero).2) := by
  obtain ⟨chosen, spent, counts, -⟩ := countsOnce_chooseCodec compressors tests chunk phase config
  simp [counts]

theorem chooseCodec_spent :
    (chooseCodec compressors tests chunk phase config .zero).2.total = 1 ∧
      (chooseCodec compressors tests chunk phase config .zero).2.bytesIn =
        UInt64.ofNat chunk.length ∧
      (chooseCodec compressors tests chunk phase config .zero).2.bytesOut =
        UInt64.ofNat (chooseCodec compressors tests chunk phase config .zero).1.2.length := by
  obtain ⟨chosen, spent, counts, once⟩ :=
    countsOnce_chooseCodec compressors tests chunk phase config
  simpa [counts] using once

end Counting

/-- A codec and payload that stand for a chunk. -/
def Represents (compressors : Compressors) (chunk : Bytes) : CodecId × Bytes → Prop
  | (.raw, payload) => payload = chunk
  | (.zstd, payload) => ∃ level, compressors.zstdEncode chunk level = some payload

section Lossless

variable {Threshold : Type} {compressors : Compressors} {tests : LengthTests Threshold}

theorem Represents.decode_frame {chunk : Bytes} {chosen : CodecId × Bytes}
    (represents : Represents compressors chunk chosen) (inverts : compressors.Inverts) :
    decodeChunk compressors (frame chosen.1 chosen.2) = .ok chunk := by
  obtain ⟨codec, payload⟩ := chosen
  cases codec with
  | raw =>
      obtain rfl : payload = chunk := represents
      rfl
  | zstd =>
      obtain ⟨level, encoded⟩ := represents
      have read : unframe (frame .zstd payload) = .ok (.zstd, payload) := rfl
      simp [decodeChunk, read, decompressZstd, inverts encoded]

theorem zstdEncode_of_compressZstd {data output : Bytes} {level : Int32}
    (compressed : compressZstd compressors data level = .ok output) :
    compressors.zstdEncode data level = some output := by
  unfold compressZstd at compressed
  split at compressed
  next => cases compressed
  next => cases compressed; assumption

theorem represents_escalateOver {config : PolicyConfig Threshold} {chunk zstd3 : Bytes}
    {counters : PolicyCounters} (baseline : Represents compressors chunk (.zstd, zstd3)) :
    Represents compressors chunk (escalateOver compressors config chunk zstd3 counters).1 := by
  unfold escalateOver
  split
  next => exact baseline
  next zstd9 compressed =>
    split
    next => exact ⟨config.escalateLevel, zstdEncode_of_compressZstd compressed⟩
    next => exact baseline

/-- Whatever the policy decides, the payload stands for the chunk. -/
theorem represents_chooseCodec (chunk : Bytes) (phase : Phase) (config : PolicyConfig Threshold)
    (counters : PolicyCounters) :
    Represents compressors chunk (chooseCodec compressors tests chunk phase config counters).1 := by
  simp only [chooseCodec]
  split
  next => rfl
  next =>
    split
    next => rfl
    next =>
      split
      next => rfl
      next zstd3 compressed =>
        have baseline : Represents compressors chunk (.zstd, zstd3) :=
          ⟨config.zstdLevel, zstdEncode_of_compressZstd compressed⟩
        split
        next => rfl
        next =>
          split
          next => exact represents_escalateOver baseline
          next => exact baseline

/-- Decoding undoes encoding whatever the policy decided; a frame without a
known codec byte is refused, and a raw frame is its payload. -/
theorem decodeChunk_encodeChunk (inverts : compressors.Inverts) (chunk : Bytes) (phase : Phase)
    (config : PolicyConfig Threshold) (counters : PolicyCounters) :
    decodeChunk compressors (encodeChunk compressors tests chunk phase config counters).1 =
        .ok chunk ∧
      decodeChunk compressors [] = .error .empty ∧
      (∀ byte rest, byte ≠ 0 → byte ≠ 1 →
        decodeChunk compressors (byte :: rest) = .error (.unknownCodec byte)) ∧
      ∀ payload, decodeChunk compressors (0 :: payload) = .ok payload := by
  refine ⟨?_, rfl, ?_, fun _ => rfl⟩
  · exact (represents_chooseCodec chunk phase config counters).decode_frame inverts
  · intro byte rest notRaw notZstd
    simp [decodeChunk, unframe, CodecId.fromByte, notRaw, notZstd]

end Lossless

/-- zstd on data it finds nothing to gain on: the frame header, then the data
as one raw block. -/
def rawBlockFrame (data : Bytes) : Bytes :=
  [0x28, 0xb5, 0x2f, 0xfd, 0x00, 0x58, UInt8.ofNat (8 * data.length + 1),
    UInt8.ofNat ((8 * data.length + 1) / 256), UInt8.ofNat ((8 * data.length + 1) / 65536)] ++ data

/-- The compressors on data too short to compress. -/
def storingCompressors : Compressors where
  zstdEncode data _ := some (rawBlockFrame data)
  zstdDecode data := some (data.drop 9)
  lz4Len data := data.length + 1

theorem storingCompressors_invert : storingCompressors.Inverts := by
  intro data level output encoded
  obtain rfl : rawBlockFrame data = output := Option.some.inj encoded
  rfl

theorem sample_chunk_survives :
    decodeChunk storingCompressors (encodeChunk storingCompressors
      ⟨fun _ _ _ => false, fun _ _ _ => false, fun _ _ _ => true⟩ [7, 8, 9] .incremental
      ⟨true, true, 3, 3, (), (), ()⟩ .zero).1 = .ok [7, 8, 9] :=
  (decodeChunk_encodeChunk storingCompressors_invert ..).1

end Busyncr
