import Busyncr.Core.Bench
import Busyncr.Core.PolicyBench
import Busyncr.Lib.Completion

/-!
Fanning one byte stream out to several chunkers: the calling thread, one
chunker thread for each candidate and a bounded channel to each of them.

A step is one action of one thread, so that a run is a schedule.  The
content-defined chunking belongs to a library and is a parameter: it reads
with buffers of any length until a read finds the end of the stream, and its
chunks depend only on the bytes read.
-/

namespace Busyncr

structure Chunk where
  id : ChunkId
  offset : UInt64
  data : Bytes
deriving DecidableEq

def Chunk.len (chunk : Chunk) : Nat := chunk.data.length

/-- The cut of a content into chunks, for every configuration. -/
abbrev Cdc := ChunkerConfig → Bytes → List Bytes

/-- The chunks tile the content. -/
def Cdc.Tiles (cdc : Cdc) : Prop := ∀ config content, (cdc config content).flatten = content

/-- Put the unkeyed ID and the offset to every chunk. -/
def chunksFrom (blake3 : Blake3) : (offset : Nat) → List Bytes → List Chunk
  | _, [] => []
  | offset, data :: rest =>
      ⟨.of blake3 data, UInt64.ofNat offset, data⟩ :: chunksFrom blake3 (offset + data.length) rest

/-- The chunks of a whole content, read on its own. -/
def chunkReader (cdc : Cdc) (blake3 : Blake3) (config : ChunkerConfig) (content : Bytes) :
    List Chunk :=
  chunksFrom blake3 0 (cdc config content)

/-- The identity and length of a chunk, without its bytes. -/
def Chunk.toMeta (chunk : Chunk) : ChunkMeta := ⟨chunk.id, UInt64.ofNat chunk.len⟩

/-- Size of the blocks broadcast to the chunker threads. -/
def fanOutBlockSize : Nat := 256 * 1024

/-- Blocks a channel holds before a send waits. -/
def fanOutChannelDepth : Nat := 4

/-- What one read of the source returns before its end. -/
inductive SourceRead where
  | bytes (block : Bytes) (nonempty : block ≠ []) (fits : block.length ≤ fanOutBlockSize)
  | interrupted

/-- A source: its reads, and the error its reading ends with, if any. -/
structure Source (IoError : Type) where
  reads : List SourceRead
  failure : Option IoError

def SourceRead.content : SourceRead → Bytes
  | .bytes block _ _ => block
  | .interrupted => []

/-- All bytes the reads of a source deliver. -/
def Source.content {IoError : Type} (source : Source IoError) : Bytes :=
  source.reads.flatMap SourceRead.content

/-- The receiving end of a channel as a reader. -/
structure ChannelReader where
  queue : List Bytes
  connected : Bool
  current : Option Bytes
  pos : Nat

namespace ChannelReader

def new : ChannelReader := ⟨[], true, none, 0⟩

/-- One iteration of the loop in `read` with a buffer of the given length: the
bytes `read` returns with, if it does; missing where the receiver waits. -/
def iterate (reader : ChannelReader) (len : Nat) : Option (ChannelReader × Option Bytes) :=
  match reader.current with
  | some block =>
      if reader.pos < block.length then
        let n := min len (block.length - reader.pos)
        some ({ reader with pos := reader.pos + n }, some ((block.drop reader.pos).take n))
      else some ({ reader with current := none }, none)
  | none =>
      match reader.queue with
      | block :: rest =>
          some ({ reader with queue := rest, current := some block, pos := 0 }, none)
      | [] => if reader.connected then none else some (reader, some [])

/-- What the reader has still to deliver. -/
def backlog (reader : ChannelReader) : Bytes :=
  (reader.current.getD []).drop reader.pos ++ reader.queue.flatten

end ChannelReader

/-- How a chunker thread came to its end. -/
inductive WorkerOutcome (IoError : Type) where
  | finished (chunks : List ChunkMeta)
  | failed (error : ChunkingError IoError)
  | panicked

inductive WorkerPhase (IoError : Type) where
  | chunking
  | reading (len : Nat)
  | stopped (outcome : WorkerOutcome IoError)

/-- A chunker thread: what its reads have delivered, and whether one of them
found the end of the stream. -/
structure Worker (IoError : Type) where
  config : ChunkerConfig
  reader : ChannelReader
  delivered : Bytes
  ended : Bool
  phase : WorkerPhase IoError

structure FanOut where
  perCandidate : List (List ChunkMeta)
  bytesRead : UInt64
deriving DecidableEq

inductive MainPhase (IoError : Type) where
  | reading (left : Source IoError)
  | sending (block : Bytes) (index : Nat) (left : Source IoError)
  | closing (index : Nat)
  | joining (index : Nat) (perCandidate : List (List ChunkMeta))
      (workerErr : Option (ChunkingError IoError))
  | returned (result : Except (ChunkingError IoError) FanOut)

structure FanOutState (IoError : Type) where
  workers : List (Worker IoError)
  bytesRead : UInt64
  readErr : Option IoError
  main : MainPhase IoError

inductive FanOutAction (IoError : Type) where
  | main
  | call (index len : Nat)
  | iterate (index : Nat)
  | finish (index : Nat)
  | fail (index : Nat) (error : ChunkingError IoError)
  | panic (index : Nat)

section Machine

variable {IoError : Type}

namespace WorkerOutcome

def chunks : WorkerOutcome IoError → List ChunkMeta
  | .finished chunks => chunks
  | _ => []

def error? : WorkerOutcome IoError → Option (ChunkingError IoError)
  | .finished _ => none
  | .failed error => some error
  | .panicked => some (.internal "chunker thread panicked")

end WorkerOutcome

namespace Worker

def start (config : ChunkerConfig) : Worker IoError := ⟨config, .new, [], false, .chunking⟩

/-- `send` of a block: it waits for room, and is lost on a stopped thread. -/
def receive (worker : Worker IoError) (block : Bytes) : Option (Worker IoError) :=
  match worker.phase with
  | .stopped _ => some worker
  | _ =>
      if worker.reader.queue.length < fanOutChannelDepth then
        some { worker with
          reader := { worker.reader with queue := worker.reader.queue ++ [block] } }
      else none

/-- The sender is dropped. -/
def disconnect (worker : Worker IoError) : Worker IoError :=
  { worker with reader := { worker.reader with connected := false } }

/-- Call `read` with a buffer of the given length. -/
def call (worker : Worker IoError) (len : Nat) : Option (Worker IoError) :=
  match worker.phase with
  | .chunking => if len = 0 then some worker else some { worker with phase := .reading len }
  | _ => none

/-- One iteration of the loop in a `read` that was called. -/
def iterate (worker : Worker IoError) : Option (Worker IoError) :=
  match worker.phase with
  | .reading len =>
      match worker.reader.iterate len with
      | none => none
      | some (reader, none) => some { worker with reader := reader }
      | some (reader, some bytes) =>
          some { worker with
            reader := reader
            delivered := worker.delivered ++ bytes
            ended := worker.ended || bytes.isEmpty
            phase := .chunking }
  | _ => none

/-- The iterator is exhausted, after it has seen the end of the stream. -/
def finish (cdc : Cdc) (blake3 : Blake3) (worker : Worker IoError) : Option (Worker IoError) :=
  match worker.phase with
  | .chunking =>
      if worker.ended then
        let chunks := chunkReader cdc blake3 worker.config worker.delivered
        some { worker with phase := .stopped (.finished (chunks.map Chunk.toMeta)) }
      else none
  | _ => none

/-- The chunker gives up, outside of a read. -/
def stop (worker : Worker IoError) (outcome : WorkerOutcome IoError) : Option (Worker IoError) :=
  match worker.phase with
  | .chunking => some { worker with phase := .stopped outcome }
  | _ => none

end Worker

/-- The result of the scope, once every thread was joined. -/
def verdict (readErr : Option IoError) (workerErr : Option (ChunkingError IoError))
    (perCandidate : List (List ChunkMeta)) (bytesRead : UInt64) :
    Except (ChunkingError IoError) FanOut :=
  match readErr with
  | some error => .error (.io error)
  | none =>
      match workerErr with
      | some error => .error error
      | none => .ok ⟨perCandidate, bytesRead⟩

namespace FanOutState

/-- One step of the calling thread. -/
def mainStep (state : FanOutState IoError) : Option (FanOutState IoError) :=
  match state.main with
  | .reading ⟨.bytes block _ _ :: reads, failure⟩ =>
      some { state with
        bytesRead := state.bytesRead + UInt64.ofNat block.length
        main := .sending block 0 ⟨reads, failure⟩ }
  | .reading ⟨.interrupted :: reads, failure⟩ =>
      some { state with main := .reading ⟨reads, failure⟩ }
  | .reading ⟨[], failure⟩ => some { state with readErr := failure, main := .closing 0 }
  | .sending block index left =>
      match state.workers[index]? with
      | none => some { state with main := .reading left }
      | some worker =>
          (worker.receive block).map fun next =>
            { state with
              workers := state.workers.set index next
              main := .sending block (index + 1) left }
  | .closing index =>
      match state.workers[index]? with
      | none => some { state with main := .joining 0 [] none }
      | some worker =>
          some { state with
            workers := state.workers.set index worker.disconnect
            main := .closing (index + 1) }
  | .joining index perCandidate workerErr =>
      match state.workers[index]? with
      | none =>
          let result := verdict state.readErr workerErr perCandidate state.bytesRead
          some { state with main := .returned result }
      | some worker =>
          match worker.phase with
          | .stopped outcome =>
              some { state with
                main := .joining (index + 1) (perCandidate ++ [outcome.chunks])
                  (workerErr.or outcome.error?) }
          | _ => none
  | .returned _ => none

/-- One step of a chunker thread. -/
def workerStep (state : FanOutState IoError) (index : Nat)
    (act : Worker IoError → Option (Worker IoError)) : Option (FanOutState IoError) :=
  match state.workers[index]? with
  | none => none
  | some worker =>
      (act worker).map fun next => { state with workers := state.workers.set index next }

end FanOutState

def FanOutState.start (configs : List ChunkerConfig) (source : Source IoError) :
    FanOutState IoError :=
  ⟨configs.map Worker.start, 0, none, .reading source⟩

def fanOutStep (cdc : Cdc) (blake3 : Blake3) (state : FanOutState IoError) :
    FanOutAction IoError → Option (FanOutState IoError)
  | .main => state.mainStep
  | .call index len => state.workerStep index fun worker => worker.call len
  | .iterate index => state.workerStep index Worker.iterate
  | .finish index => state.workerStep index (Worker.finish cdc blake3)
  | .fail index error => state.workerStep index fun worker => worker.stop (.failed error)
  | .panic index => state.workerStep index fun worker => worker.stop .panicked

/-- A step in which a chunker gives up. -/
def FanOutAction.givesUp : FanOutAction IoError → Bool
  | .fail _ _ => true
  | .panic _ => true
  | _ => false

/-- Without candidates the source is only read through and counted. -/
def countBytes : (total : UInt64) → (reads : List SourceRead) → (failure : Option IoError) →
    Except (ChunkingError IoError) FanOut
  | total, [], none => .ok ⟨[], total⟩
  | _, [], some error => .error (.io error)
  | total, .bytes block _ _ :: reads, failure =>
      countBytes (total + UInt64.ofNat block.length) reads failure
  | total, .interrupted :: reads, failure => countBytes total reads failure

/-- The results a schedule of `fan_out_chunks` can return; with `quiet`, of
those in which no chunker gives up. -/
def FanOutReturns (cdc : Cdc) (blake3 : Blake3) (source : Source IoError)
    (configs : List ChunkerConfig) (quiet : Bool)
    (result : Except (ChunkingError IoError) FanOut) : Prop :=
  if configs = [] then result = countBytes 0 source.reads source.failure
  else ∃ actions final,
    Transition.run (fanOutStep cdc blake3) (.start configs source) actions = some final ∧
      final.main = .returned result ∧
      (quiet = true → ∀ action ∈ actions, action.givesUp = false)

end Machine

end Busyncr
