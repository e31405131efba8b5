import Busyncr.Store.Prune

/-!
The handlers of the gRPC service, as functions of the client registry and of
the store.

A handler sees wire values: raw byte strings for IDs, which it parses before
it touches the store.  Statuses are kept by their gRPC code.
-/

namespace Busyncr.Daemon

open Std Store

/-- A gRPC status: the codes the handlers answer with, and any other code a
peer or the transport may produce. -/
inductive Status where
  | unauthenticated
  | permissionDenied
  | invalidArgument
  | notFound
  | alreadyExists
  | failedPrecondition
  | dataLoss
  | internal
  | other (code : UInt32)
deriving DecidableEq

def statusFromStore : StoreError → Status
  | .chunkNotFound _ => .notFound
  | .snapshotNotFound _ => .notFound
  | .snapshotExists _ => .alreadyExists
  | .unknownChunkRef _ _ => .failedPrecondition
  | .stillReferenced _ _ => .failedPrecondition
  | .integrity _ => .dataLoss
  | .index => .internal

/-- A registry entry, stored under the fingerprint of its certificate. -/
structure ClientRecord where
  name : String
  revoked : Bool
deriving DecidableEq

abbrev Registry := ExtTreeMap String ClientRecord

inductive ClientStatus where
  | active
  | revoked
  | unknown
deriving DecidableEq

def clientStatus (registry : Registry) (fingerprint : String) : ClientStatus :=
  match registry[fingerprint]? with
  | none => .unknown
  | some record => if record.revoked then .revoked else .active

/-- The enrollment name under a fingerprint, whether revoked or not. -/
def clientName (registry : Registry) (fingerprint : String) : Option String :=
  registry[fingerprint]?.map ClientRecord.name

/-- Whether an active client is enrolled under the name. -/
def activeClientNamed (registry : Registry) (name : String) : Bool :=
  registry.toList.any fun entry => entry.2.name = name && !entry.2.revoked

/-- Register a certificate under a name no active client has. -/
def enrollClient (registry : Registry) (name fingerprint : String) : Registry :=
  if activeClientNamed registry name then registry
  else registry.insert fingerprint ⟨name, false⟩

/-- Mark every certificate enrolled under a name as revoked. -/
def revoke (registry : Registry) (name : String) : Registry :=
  registry.map fun _ record =>
    if record.name = name then { record with revoked := true } else record

/-- Enforce client authentication for one request; without a registry every
request passes. -/
def authenticate (auth : Option Registry) (fingerprint : Option String) : Except Status Unit :=
  match auth with
  | none => .ok ()
  | some registry =>
      match fingerprint with
      | none => .error .unauthenticated
      | some presented =>
          match clientStatus registry presented with
          | .active => .ok ()
          | .revoked => .error .permissionDenied
          | .unknown => .error .unauthenticated

/-- The client a snapshot is attributed to. -/
def ownerOf (auth : Option Registry) (fingerprint : Option String) : Option String :=
  match auth, fingerprint with
  | some registry, some presented => clientName registry presented
  | _, _ => none

def parseChunkId (bytes : Bytes) : Except Status ChunkId :=
  match ChunkId.fromSlice? bytes with
  | some id => .ok id
  | none => .error .invalidArgument

def parseSnapshotId (bytes : Bytes) : Except Status Ulid :=
  match Ulid.fromSlice? bytes with
  | some id => .ok id
  | none => .error .invalidArgument

/-- Parse a repeated field of chunk IDs; the first malformed one is
refused. -/
def parseChunkIds : List Bytes → Except Status (List ChunkId)
  | [] => .ok []
  | bytes :: rest =>
      match parseChunkId bytes with
      | .error status => .error status
      | .ok id =>
          match parseChunkIds rest with
          | .error status => .error status
          | .ok ids => .ok (id :: ids)

/-- A chunk on the wire. -/
structure ChunkBlob where
  chunkId : Bytes
  data : Bytes
deriving DecidableEq

structure PutManifestRequest where
  manifest : Bytes
  snapshotId : Bytes
  chunkIds : List Bytes
deriving DecidableEq

/-- Wire IDs of the chunks asked about that the store does not hold. -/
def hasChunks (tables : Tables) (chunkIds : List Bytes) : Except Status (List Bytes) :=
  match parseChunkIds chunkIds with
  | .error status => .error status
  | .ok ids => .ok ((ids.filter fun id => !hasChunk tables id).map ChunkId.asBytes)

/-- How many uploaded chunks were new, and how many already present. -/
structure UploadChunksResponse where
  stored : UInt64
  alreadyPresent : UInt64
deriving DecidableEq

/-- Store a stream of blobs one after another; a malformed ID ends the stream
with what came before it already stored. -/
def uploadChunks (blake3 : Blake3) :
    Disk → UploadChunksResponse → List ChunkBlob → Except Status UploadChunksResponse × Disk
  | disk, counted, [] => (.ok counted, disk)
  | disk, counted, blob :: rest =>
      match parseChunkId blob.chunkId with
      | .error status => (.error status, disk)
      | .ok id =>
          match putChunk blake3 disk id blob.data with
          | (true, next) =>
              uploadChunks blake3 next { counted with stored := counted.stored + 1 } rest
          | (false, next) =>
              uploadChunks blake3 next
                { counted with alreadyPresent := counted.alreadyPresent + 1 } rest

/-- The snapshot ID and references of a manifest request. -/
def parsePutManifest (request : PutManifestRequest) : Except Status (Ulid × List ChunkId) :=
  match parseSnapshotId request.snapshotId with
  | .error status => .error status
  | .ok snapshot =>
      match parseChunkIds request.chunkIds with
      | .error status => .error status
      | .ok refs => .ok (snapshot, refs)

/-- The committed part of `put_manifest`, before the post-backup prune. -/
def storeManifest (tables : Tables) (owner : Option String) (request : PutManifestRequest) :
    Except Status Tables :=
  match parsePutManifest request with
  | .error status => .error status
  | .ok (snapshot, refs) =>
      match putSnapshotAs tables snapshot request.manifest refs owner with
      | .error error => .error (statusFromStore error)
      | .ok next => .ok next

/-- `put_manifest` with nothing beside it: commit the snapshot, then prune at
the given instant if the daemon prunes on its own. -/
def putManifest (tables : Tables) (owner : Option String) (autoPrune : Bool) (nowMs : Int64)
    (request : PutManifestRequest) : Except Status Tables :=
  match storeManifest tables owner request with
  | .error status => .error status
  | .ok stored => .ok (if autoPrune then (prune stored nowMs .defaultGrid .auto).2 else stored)

def getManifest (tables : Tables) (snapshotId : Bytes) : Except Status Bytes :=
  match parseSnapshotId snapshotId with
  | .error status => .error status
  | .ok snapshot =>
      match getManifestBlob tables snapshot with
      | .error error => .error (statusFromStore error)
      | .ok blob => .ok blob

/-- The stream of `get_chunks`: one verified blob for each requested ID, in
order, ending with the first error. -/
def chunkStream (blake3 : Blake3) (disk : Disk) : List ChunkId → List (Except Status ChunkBlob)
  | [] => []
  | id :: rest =>
      match getChunk blake3 disk id with
      | .error error => [.error (statusFromStore error)]
      | .ok data => .ok ⟨id.asBytes, data⟩ :: chunkStream blake3 disk rest

def getChunks (blake3 : Blake3) (disk : Disk) (chunkIds : List Bytes) :
    Except Status (List (Except Status ChunkBlob)) :=
  match parseChunkIds chunkIds with
  | .error status => .error status
  | .ok ids => .ok (chunkStream blake3 disk ids)

@[simp]
theorem parseChunkId_asBytes (id : ChunkId) : parseChunkId id.asBytes = .ok id := by
  simp [parseChunkId]

@[simp]
theorem parseSnapshotId_toBytes (id : Ulid) : parseSnapshotId id.toBytes = .ok id := by
  simp [parseSnapshotId]

@[simp]
theorem parseChunkIds_asBytes (ids : List ChunkId) :
    parseChunkIds (ids.map ChunkId.asBytes) = .ok ids := by
  induction ids with
  | nil => rfl
  | cons id rest inductionHypothesis => simp [parseChunkIds, inductionHypothesis]

end Busyncr.Daemon
