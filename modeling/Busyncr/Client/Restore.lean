import Busyncr.Client.Target
import Mathlib.Data.List.Forall2
import Mathlib.Data.Set.Function

/-!
The restore pipeline against an untrusted daemon.

The daemon is any peer that answers the two RPCs from a state of its own.
What the client accepts of its answers is said once for a chunk, by
`verifyChunk_ok`, and then carried through the stream, the file and the whole
manifest.
-/

namespace Busyncr.Client

open Std

/-- The library functions the client is built on. -/
structure Libraries where
  blake3 : Blake3
  aead : Aead
  compressors : Compressors

/-- The secrets of one backup set. -/
structure KeyPair where
  dataKey : DataKey
  chunkIdKey : ChunkIdKey

/-- A daemon as the restore sees it. -/
structure Peer where
  State : Type
  getManifest : State → Bytes → Except Daemon.Status Bytes × State
  getChunks : State → List Bytes →
    Except Daemon.Status (List (Except Daemon.Status Daemon.ChunkBlob)) × State

structure RestoreReport where
  snapshotId : Ulid
  files : UInt64
  bytes : UInt64
  chunksFetched : UInt64
deriving DecidableEq

def parseChunkId (bytes : Bytes) : Except RestoreError ChunkId :=
  match ChunkId.fromSlice? bytes with
  | some id => .ok id
  | none => .error (.badResponse "malformed chunk ID in GetChunks reply")

section Pipeline

variable (fs : FileSystem) (libraries : Libraries) (keys : KeyPair)

/-- Check one streamed blob against the ID expected at its place, and return
its plaintext. -/
def verifyChunk (expected : ChunkId) (blob : Daemon.ChunkBlob) : Except RestoreError Bytes :=
  match parseChunkId blob.chunkId with
  | .error error => .error error
  | .ok got =>
      if got ≠ expected then
        .error (.badResponse "GetChunks streamed a chunk out of the requested order")
      else
        match decryptChunk libraries.aead keys.dataKey expected blob.data with
        | .error error => .error (.crypto error)
        | .ok framed =>
            match decodeChunk libraries.compressors framed with
            | .error source => .error (.codecDecode expected source)
            | .ok plaintext =>
                let actual := ChunkId.keyed libraries.blake3 keys.chunkIdKey plaintext
                if actual ≠ expected then .error (.chunkIdMismatch expected actual)
                else .ok plaintext

/-- The open file and the counters while its chunks arrive. -/
structure Writing where
  tree : Tree
  written : UInt64
  report : RestoreReport

/-- Write one verified plaintext and count it. -/
def Writing.append (writing : Writing) (path : List String) (plaintext : Bytes) :
    Except RestoreError Writing :=
  match writeAll fs writing.tree path plaintext with
  | .error error => .error error
  | .ok tree =>
      let chunkLen := UInt64.ofNat plaintext.length
      .ok
        { tree := tree
          written := writing.written + chunkLen
          report := { writing.report with
            bytes := writing.report.bytes + chunkLen
            chunksFetched := writing.report.chunksFetched + 1 } }

/-- Take the expected chunks off the stream, in order, and the end after
them. -/
def receiveChunks (path : List String) :
    List ChunkId → List (Except Daemon.Status Daemon.ChunkBlob) → Writing →
      Except RestoreError Writing
  | [], [], writing => .ok writing
  | [], .error status :: _, _ => .error (.rpc status)
  | [], .ok _ :: _, _ =>
      .error (.badResponse "GetChunks streamed more chunks than were requested")
  | _ :: _, [], _ =>
      .error (.badResponse "GetChunks stream ended before every requested chunk arrived")
  | _ :: _, .error status :: _, _ => .error (.rpc status)
  | expected :: rest, .ok blob :: stream, writing =>
      match verifyChunk libraries keys expected blob with
      | .error error => .error error
      | .ok plaintext =>
          match writing.append fs path plaintext with
          | .error error => .error error
          | .ok next => receiveChunks path rest stream next

/-- Flush the file and restore its times and mode. -/
def finishFile (tree : Tree) (path : List String) (file : FileEntry) : Except RestoreError Tree :=
  match syncAll fs tree path with
  | .error error => .error error
  | .ok synced =>
      match setFileMtime fs synced path (file.mtimeSecs, file.mtimeNanos) with
      | .error error => .error error
      | .ok timed => setMode fs timed path file.mode

/-- Fetch and write the chunks of a file; a file without any asks for
nothing. -/
def fetchChunks (peer : Peer) (state : peer.State) (path : List String) (file : FileEntry)
    (writing : Writing) : Except RestoreError (Writing × peer.State) :=
  if file.chunks = [] then .ok (writing, state)
  else
    match peer.getChunks state (file.chunks.map ChunkId.asBytes) with
    | (.error status, _) => .error (.rpc status)
    | (.ok stream, next) =>
        match receiveChunks fs libraries keys path file.chunks stream writing with
        | .error error => .error error
        | .ok received => .ok (received, next)

/-- Open the output file of an entry, with the directories above it. -/
def openOutput (tree : Tree) (file : FileEntry) : Except RestoreError (List String × Tree) :=
  match sanitizePath file.path with
  | .error error => .error error
  | .ok path =>
      match createDirAll fs tree path.dropLast with
      | .error error => .error error
      | .ok parents =>
          match createFile fs parents path with
          | .error error => .error error
          | .ok created => .ok (path, created)

/-- Reassemble one file; the length written is returned beside the tree. -/
def restoreFile (peer : Peer) (state : peer.State) (tree : Tree) (file : FileEntry)
    (report : RestoreReport) : Except RestoreError (Writing × peer.State) :=
  match openOutput fs tree file with
  | .error error => .error error
  | .ok (path, created) =>
      match fetchChunks fs libraries keys peer state path file ⟨created, 0, report⟩ with
      | .error error => .error error
      | .ok (received, next) =>
          match finishFile fs received.tree path file with
          | .error error => .error error
          | .ok finished => .ok ({ received with tree := finished }, next)

/-- Reassemble the files in manifest order. -/
def restoreFiles (peer : Peer) :
    List FileEntry → peer.State → Tree → RestoreReport → Except RestoreError (RestoreReport × Tree)
  | [], _, tree, report => .ok (report, tree)
  | file :: rest, state, tree, report =>
      match restoreFile fs libraries keys peer state tree file report with
      | .error error => .error error
      | .ok (written, next) =>
          if written.written ≠ file.size then
            .error (.sizeMismatch file.path file.size written.written)
          else
            restoreFiles peer rest next written.tree
              { written.report with files := written.report.files + 1 }

/-- Restore one snapshot into an empty target. -/
def runRestore (peer : Peer) (state : peer.State) (snapshot : Ulid) (target : Target) :
    Except RestoreError (RestoreReport × Tree) :=
  match ensureEmptyTarget fs target with
  | .error error => .error error
  | .ok tree =>
      match peer.getManifest state snapshot.toBytes with
      | (.error status, _) => .error (.rpc status)
      | (.ok blob, next) =>
          match decryptManifest libraries.aead keys.dataKey snapshot blob with
          | .error error => .error (.crypto error)
          | .ok plaintext =>
              match Manifest.decode plaintext with
              | .error error => .error (.manifest error)
              | .ok manifest =>
                  restoreFiles fs libraries keys peer manifest.files next tree
                    ⟨snapshot, 0, 0, 0⟩

end Pipeline

end Busyncr.Client
