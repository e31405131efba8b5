import Busyncr.Daemon.Enrollment
import Busyncr.Store.Sequences

/-!
The whole daemon against the contents of its store.

Requests come from any client, with any bytes, between prunes, collections
and changes of the registry.  `answer` says what each request means for the
contents; the handlers over tables and files agree with it, reply by reply.
-/

namespace Busyncr.Daemon

open Std Store

section Answers

/-- Take a stream of blobs one after another. -/
def takeBlobs : Contents → UploadChunksResponse → List ChunkBlob →
    Except Status UploadChunksResponse × Contents
  | contents, counted, [] => (.ok counted, contents)
  | contents, counted, blob :: rest =>
      match parseChunkId blob.chunkId with
      | .error status => (.error status, contents)
      | .ok id =>
          if id ∈ contents.blobs then
            takeBlobs contents { counted with alreadyPresent := counted.alreadyPresent + 1 } rest
          else
            takeBlobs { contents with blobs := contents.blobs.insert id blob.data }
              { counted with stored := counted.stored + 1 } rest

/-- The blobs asked for, up to the first one that is not held. -/
def blobStream (contents : Contents) : List ChunkId → List (Except Status ChunkBlob)
  | [] => []
  | id :: rest =>
      match contents.blobs[id]? with
      | none => [.error .notFound]
      | some data => .ok ⟨id.asBytes, data⟩ :: blobStream contents rest

/-- The IDs of the chunks asked about that are not held. -/
def missingBlobs (contents : Contents) (chunkIds : List Bytes) : Except Status (List Bytes) :=
  (parseChunkIds chunkIds).map fun ids =>
    (ids.filter fun id => id ∉ contents.blobs).map ChunkId.asBytes

def manifestOf (contents : Contents) (snapshotId : Bytes) : Except Status Bytes :=
  match parseSnapshotId snapshotId with
  | .error status => .error status
  | .ok snapshot =>
      match contents.live[snapshot]? with
      | none => .error .notFound
      | some shipped => .ok shipped.blob

/-- Put a snapshot, then prune if the daemon prunes on its own. -/
def shipManifest (contents : Contents) (owner : Option String) (autoPrune : Bool)
    (nowMs : Int64) (request : PutManifestRequest) : Except Status Contents :=
  match parsePutManifest request with
  | .error status => .error status
  | .ok (snapshot, refs) =>
      match contents.perform (.putSnapshotAs snapshot request.manifest refs owner) with
      | (.finished (.error error), _) => .error (statusFromStore error)
      | (_, next) =>
          .ok (if autoPrune then (next.perform (.prune nowMs .defaultGrid .auto)).2 else next)

/-- What an admitted request means for the contents. -/
def answer (autoPrune : Bool) (owner : Option String) (nowMs : Int64) (contents : Contents) :
    Rpc → Except Status Reply × Contents
  | .listSnapshots => (.ok (.snapshotIds (contents.live.keys.map Ulid.toBytes)), contents)
  | .hasChunks chunkIds => ((missingBlobs contents chunkIds).map .missingChunkIds, contents)
  | .uploadChunks blobs =>
      match takeBlobs contents ⟨0, 0⟩ blobs with
      | (counted, next) => (counted.map .uploaded, next)
  | .putManifest request =>
      match shipManifest contents owner autoPrune nowMs request with
      | .error status => (.error status, contents)
      | .ok next => (.ok .manifestStored, next)
  | .getManifest snapshotId => ((manifestOf contents snapshotId).map .manifest, contents)
  | .getChunks chunkIds =>
      ((parseChunkIds chunkIds).map fun ids => .chunks (blobStream contents ids), contents)

/-- A request means nothing to the contents unless its client is admitted. -/
def admitted (autoPrune : Bool) (auth : Option Registry) (fingerprint : Option String)
    (nowMs : Int64) (contents : Contents) (rpc : Rpc) : Except Status Reply × Contents :=
  match authenticate auth fingerprint with
  | .error status => (.error status, contents)
  | .ok () => answer autoPrune (ownerOf auth fingerprint) nowMs contents rpc

end Answers

section Requests

variable {blake3 : Blake3} {disk : Disk} {contents : Contents}

theorem uploadChunks_eq (represents : Store.Represents blake3 disk contents)
    (counted : UploadChunksResponse) (blobs : List ChunkBlob) :
    (uploadChunks blake3 disk counted blobs).1 = (takeBlobs contents counted blobs).1 ∧
      Store.Represents blake3 (uploadChunks blake3 disk counted blobs).2
        (takeBlobs contents counted blobs).2 := by
  induction blobs generalizing disk contents counted with
  | nil => exact ⟨rfl, represents⟩
  | cons blob rest inductionHypothesis =>
      simp only [uploadChunks, takeBlobs]
      cases parseChunkId blob.chunkId with
      | error status => exact ⟨rfl, represents⟩
      | ok id =>
          obtain ⟨answered, onward⟩ := represents.putChunk id blob.data
          simp only [Operation.run, Contents.perform] at answered onward
          by_cases held : id ∈ contents.blobs
          · have stored : id ∈ disk.tables.chunks := represents.mem_blobs_iff.mp held
            simp only [putChunk, if_pos stored, if_pos held]
            exact inductionHypothesis represents _
          · have fresh : id ∉ disk.tables.chunks := fun stored =>
              held (represents.mem_blobs_iff.mpr stored)
            rw [if_neg held] at onward
            simp only [putChunk, if_neg fresh, if_neg held] at onward ⊢
            exact inductionHypothesis onward _

theorem hasChunks_eq (represents : Store.Represents blake3 disk contents) (chunkIds : List Bytes) :
    hasChunks disk.tables chunkIds = missingBlobs contents chunkIds := by
  unfold hasChunks missingBlobs
  cases parseChunkIds chunkIds with
  | error status => rfl
  | ok ids => simp [Except.map, represents.hasChunk_eq]

theorem getManifest_eq (represents : Store.Represents blake3 disk contents) (snapshotId : Bytes) :
    getManifest disk.tables snapshotId = manifestOf contents snapshotId := by
  unfold getManifest manifestOf
  cases parseSnapshotId snapshotId with
  | error status => rfl
  | ok snapshot =>
      simp only [represents.getManifestBlob_eq, Contents.getManifestBlob]
      cases contents.live[snapshot]? <;> rfl

theorem chunkStream_eq (represents : Store.Represents blake3 disk contents) (ids : List ChunkId) :
    chunkStream blake3 disk ids = blobStream contents ids := by
  induction ids with
  | nil => rfl
  | cons id rest inductionHypothesis =>
      simp only [chunkStream, blobStream, represents.fetched, Contents.getChunk]
      cases contents.blobs[id]? with
      | none => rfl
      | some data => simp [inductionHypothesis]

theorem parsePutManifest_length {request : PutManifestRequest} {snapshot : Ulid}
    {refs : List ChunkId} (parsed : parsePutManifest request = .ok (snapshot, refs)) :
    refs.length = request.chunkIds.length := by
  have each : ∀ (wire : List Bytes) (ids : List ChunkId), parseChunkIds wire = .ok ids →
      ids.length = wire.length := by
    intro wire
    induction wire with
    | nil =>
        intro ids taken
        cases taken
        rfl
    | cons bytes rest inductionHypothesis =>
        intro ids taken
        simp only [parseChunkIds] at taken
        split at taken
        next => cases taken
        next =>
          split at taken
          next => cases taken
          next others restTaken =>
            cases taken
            simp [inductionHypothesis others restTaken]
  unfold parsePutManifest at parsed
  split at parsed
  next => cases parsed
  next =>
    split at parsed
    next => cases parsed
    next taken =>
      cases parsed
      exact each _ _ taken

theorem putManifest_eq (represents : Store.Represents blake3 disk contents) (owner : Option String)
    (autoPrune : Bool) (nowMs : Int64) (request : PutManifestRequest)
    (few : contents.references.length + request.chunkIds.length < 2 ^ 64) :
    (∃ status, putManifest disk.tables owner autoPrune nowMs request = .error status ∧
        shipManifest contents owner autoPrune nowMs request = .error status) ∨
      ∃ tables next, putManifest disk.tables owner autoPrune nowMs request = .ok tables ∧
        shipManifest contents owner autoPrune nowMs request = .ok next ∧
        Store.Represents blake3 { disk with tables := tables } next := by
  unfold putManifest storeManifest shipManifest
  cases parsed : parsePutManifest request with
  | error status => exact .inl ⟨status, rfl, rfl⟩
  | ok named =>
      obtain ⟨snapshot, refs⟩ := named
      rw [← parsePutManifest_length parsed] at few
      obtain ⟨answered, onward⟩ :=
        represents.perform (.putSnapshotAs snapshot request.manifest refs owner) few
      simp only [Operation.run] at answered onward
      cases performed : contents.perform
          (.putSnapshotAs snapshot request.manifest refs owner) with
      | mk outcome next =>
          rw [performed] at answered onward
          simp only [performed]
          cases stored : putSnapshotAs disk.tables snapshot request.manifest refs owner with
          | error error =>
              rw [stored] at answered
              simp only [finish] at answered
              subst answered
              exact .inl ⟨_, rfl, rfl⟩
          | ok tables =>
              rw [stored] at answered onward
              simp only [finish] at answered onward
              subst answered
              refine .inr ⟨_, _, rfl, rfl, ?_⟩
              cases autoPrune with
              | false => exact onward
              | true => exact (onward.prune nowMs .defaultGrid .auto).2

/-- How many references a request puts. -/
def Rpc.references : Rpc → Nat
  | .putManifest request => request.chunkIds.length
  | _ => 0

/-- A handler replies what the request means, and leaves what it means. -/
theorem handle_eq {contents : Contents} (setup : Setup)
    (represents : Store.Represents setup.blake3 disk contents) (owner : Option String)
    (nowMs : Int64) (rpc : Rpc)
    (few : contents.references.length + rpc.references < 2 ^ 64) :
    (handle setup owner nowMs disk rpc).1 =
        (answer setup.autoPrune owner nowMs contents rpc).1 ∧
      Store.Represents setup.blake3 (handle setup owner nowMs disk rpc).2
        (answer setup.autoPrune owner nowMs contents rpc).2 := by
  cases rpc with
  | listSnapshots =>
      simp only [handle, answer, represents.keys_eq]
      exact ⟨trivial, represents⟩
  | hasChunks chunkIds =>
      simp only [handle, answer, hasChunks_eq represents]
      exact ⟨trivial, represents⟩
  | uploadChunks blobs =>
      obtain ⟨same, onward⟩ := uploadChunks_eq represents ⟨0, 0⟩ blobs
      simp only [handle, answer, same]
      exact ⟨trivial, onward⟩
  | putManifest request =>
      simp only [handle, answer]
      rcases putManifest_eq represents owner setup.autoPrune nowMs request few with
        ⟨status, refused, meant⟩ | ⟨tables, next, stored, meant, onward⟩
      · simp only [refused, meant]
        exact ⟨trivial, represents⟩
      · simp only [stored, meant]
        exact ⟨trivial, onward⟩
  | getManifest snapshotId =>
      simp only [handle, answer, getManifest_eq represents]
      exact ⟨trivial, represents⟩
  | getChunks chunkIds =>
      simp only [handle, answer, getChunks]
      cases parseChunkIds chunkIds with
      | error status => exact ⟨rfl, represents⟩
      | ok ids =>
          simp only [Except.map, chunkStream_eq represents]
          exact ⟨trivial, represents⟩

theorem serve_eq {contents : Contents} (setup : Setup)
    (represents : Store.Represents setup.blake3 disk contents) (auth : Option Registry)
    (fingerprint : Option String) (nowMs : Int64) (rpc : Rpc)
    (few : contents.references.length + rpc.references < 2 ^ 64) :
    (serve setup auth fingerprint nowMs disk rpc).1 =
        (admitted setup.autoPrune auth fingerprint nowMs contents rpc).1 ∧
      Store.Represents setup.blake3 (serve setup auth fingerprint nowMs disk rpc).2
        (admitted setup.autoPrune auth fingerprint nowMs contents rpc).2 := by
  unfold serve admitted
  cases authenticate auth fingerprint with
  | error status => exact ⟨rfl, represents⟩
  | ok passed => exact handle_eq setup represents (ownerOf auth fingerprint) nowMs rpc few

end Requests

section Runs

/-- What can happen at a daemon. -/
inductive DaemonEvent where
  | called (fingerprint : Option String) (nowMs : Int64) (rpc : Rpc)
  /-- A prune of the timer, or a command of the operator. -/
  | operator (operation : Operation)
  | enroll (name fingerprint : String)
  | revoke (name : String)

/-- How many references an event puts. -/
def DaemonEvent.references : DaemonEvent → Nat
  | .called _ _ rpc => rpc.references
  | .operator operation => operation.references
  | _ => 0

/-- What an event returns. -/
inductive Answered where
  | replied (reply : Except Status Reply)
  | performed (outcome : Store.Outcome)
  | registered

/-- A daemon with its registry. -/
structure Host where
  auth : Option Registry
  disk : Disk

def Host.step (setup : Setup) (host : Host) : DaemonEvent → Answered × Host
  | .called fingerprint nowMs rpc =>
      let served := serve setup host.auth fingerprint nowMs host.disk rpc
      (.replied served.1, { host with disk := served.2 })
  | .operator operation =>
      let ran := operation.run setup.blake3 host.disk
      (.performed ran.1, { host with disk := ran.2 })
  | .enroll name fingerprint =>
      (.registered, { host with
        auth := host.auth.map fun registry => enrollClient registry name fingerprint })
  | .revoke name =>
      (.registered, { host with auth := host.auth.map fun registry => Daemon.revoke registry name })

/-- The same daemon, of which only the contents are known. -/
structure Holdings where
  auth : Option Registry
  contents : Contents

def Holdings.step (autoPrune : Bool) (holdings : Holdings) :
    DaemonEvent → Answered × Holdings
  | .called fingerprint nowMs rpc =>
      let served := admitted autoPrune holdings.auth fingerprint nowMs holdings.contents rpc
      (.replied served.1, { holdings with contents := served.2 })
  | .operator operation =>
      let ran := holdings.contents.perform operation
      (.performed ran.1, { holdings with contents := ran.2 })
  | .enroll name fingerprint =>
      (.registered, { holdings with
        auth := holdings.auth.map fun registry => enrollClient registry name fingerprint })
  | .revoke name =>
      (.registered, { holdings with
        auth := holdings.auth.map fun registry => Daemon.revoke registry name })

/-- What the events return, and the daemon after them. -/
def Host.run (setup : Setup) (host : Host) : List DaemonEvent → List Answered × Host
  | [] => ([], host)
  | event :: rest =>
      let stepped := host.step setup event
      let onward := stepped.2.run setup rest
      (stepped.1 :: onward.1, onward.2)

def Holdings.run (autoPrune : Bool) (holdings : Holdings) :
    List DaemonEvent → List Answered × Holdings
  | [] => ([], holdings)
  | event :: rest =>
      let stepped := holdings.step autoPrune event
      let onward := stepped.2.run autoPrune rest
      (stepped.1 :: onward.1, onward.2)

/-- The daemon holds these contents. -/
structure Host.Holds (blake3 : Blake3) (host : Host) (holdings : Holdings) : Prop where
  auth : host.auth = holdings.auth
  represents : Store.Represents blake3 host.disk holdings.contents

variable {setup : Setup} {host : Host} {holdings : Holdings}

theorem takeBlobs_live (contents : Contents) (counted : UploadChunksResponse)
    (blobs : List ChunkBlob) : (takeBlobs contents counted blobs).2.live = contents.live := by
  induction blobs generalizing contents counted with
  | nil => rfl
  | cons blob rest inductionHypothesis =>
      simp only [takeBlobs]
      split
      next => rfl
      next =>
        split
        next => exact inductionHypothesis _ _
        next => rw [inductionHypothesis]

theorem references_congr {contents other : Contents} (same : contents.live = other.live) :
    contents.references = other.references := by
  unfold Contents.references
  rw [same]
  exact List.flatMap_congr fun snapshot _ => by simp [Contents.refsOf, same]

theorem length_references_shipManifest {contents next : Contents} {owner : Option String}
    {autoPrune : Bool} {nowMs : Int64} {request : PutManifestRequest}
    (shipped : shipManifest contents owner autoPrune nowMs request = .ok next) :
    next.references.length ≤ contents.references.length + request.chunkIds.length := by
  unfold shipManifest at shipped
  split at shipped
  next => cases shipped
  next snapshot refs parsed =>
    rw [← parsePutManifest_length parsed]
    have bound := contents.length_references_perform
      (.putSnapshotAs snapshot request.manifest refs owner)
    split at shipped
    next => cases shipped
    next put _ performed =>
      rw [performed] at bound
      cases shipped
      split
      next =>
        have pruned := put.length_references_perform (.prune nowMs .defaultGrid .auto)
        simp only [Operation.references] at bound pruned
        omega
      next => exact bound

theorem length_references_answer (autoPrune : Bool) (owner : Option String) (nowMs : Int64)
    (contents : Contents) (rpc : Rpc) :
    (answer autoPrune owner nowMs contents rpc).2.references.length ≤
      contents.references.length + rpc.references := by
  cases rpc with
  | uploadChunks blobs =>
      have same := references_congr (takeBlobs_live contents ⟨0, 0⟩ blobs)
      simp only [answer, same]
      exact Nat.le_add_right _ _
  | putManifest request =>
      simp only [answer]
      split
      next => exact Nat.le_add_right _ _
      next shipped => exact length_references_shipManifest shipped
  | listSnapshots => exact Nat.le_add_right _ _
  | hasChunks chunkIds => exact Nat.le_add_right _ _
  | getManifest snapshotId => exact Nat.le_add_right _ _
  | getChunks chunkIds => exact Nat.le_add_right _ _

theorem length_references_step (autoPrune : Bool) (holdings : Holdings) (event : DaemonEvent) :
    (holdings.step autoPrune event).2.contents.references.length ≤
      holdings.contents.references.length + event.references := by
  cases event with
  | called fingerprint nowMs rpc =>
      simp only [Holdings.step, DaemonEvent.references, admitted]
      split
      next => exact Nat.le_add_right _ _
      next => exact length_references_answer _ _ _ _ _
  | operator operation => exact holdings.contents.length_references_perform operation
  | enroll name fingerprint => exact Nat.le_add_right _ _
  | revoke name => exact Nat.le_add_right _ _

/-- One event at a daemon is the event on its contents. -/
theorem Host.Holds.step (holds : host.Holds setup.blake3 holdings) (event : DaemonEvent)
    (few : holdings.contents.references.length + event.references < 2 ^ 64) :
    (host.step setup event).1 = (holdings.step setup.autoPrune event).1 ∧
      (host.step setup event).2.Holds setup.blake3 (holdings.step setup.autoPrune event).2 := by
  obtain ⟨auth, represents⟩ := holds
  cases event with
  | called fingerprint nowMs rpc =>
      obtain ⟨same, onward⟩ := serve_eq setup represents host.auth fingerprint nowMs rpc few
      rw [auth] at same onward
      simp only [Host.step, Holdings.step, auth, same]
      exact ⟨trivial, rfl, onward⟩
  | operator operation =>
      obtain ⟨same, onward⟩ := represents.perform operation few
      simp only [Host.step, Holdings.step, same]
      exact ⟨trivial, auth, onward⟩
  | enroll name fingerprint =>
      simp only [Host.step, Holdings.step, auth]
      exact ⟨trivial, rfl, represents⟩
  | revoke name =>
      simp only [Host.step, Holdings.step, auth]
      exact ⟨trivial, rfl, represents⟩

theorem Host.Holds.run (holds : host.Holds setup.blake3 holdings) (events : List DaemonEvent)
    (few : holdings.contents.references.length + (events.map DaemonEvent.references).sum <
      2 ^ 64) :
    (host.run setup events).1 = (holdings.run setup.autoPrune events).1 ∧
      (host.run setup events).2.Holds setup.blake3 (holdings.run setup.autoPrune events).2 := by
  induction events generalizing host holdings with
  | nil => exact ⟨rfl, holds⟩
  | cons event rest inductionHypothesis =>
      rw [List.map_cons, List.sum_cons] at few
      have bound := length_references_step setup.autoPrune holdings event
      obtain ⟨same, onward⟩ := holds.step event (by omega)
      obtain ⟨others, final⟩ := inductionHypothesis onward (by omega)
      simp only [Host.run, Holdings.run, same, others]
      exact ⟨trivial, final⟩

/-- Whatever clients send and operators do, every reply of the daemon and what
its store then reads as are those of a map of blobs and snapshots. -/
theorem daemon_serves_its_contents (setup : Setup) (auth : Option Registry)
    (events : List DaemonEvent) (few : (events.map DaemonEvent.references).sum < 2 ^ 64) :
    ((⟨auth, .empty⟩ : Host).run setup events).1 =
        ((⟨auth, .empty⟩ : Holdings).run setup.autoPrune events).1 ∧
      ((⟨auth, .empty⟩ : Host).run setup events).2.Holds setup.blake3
        ((⟨auth, .empty⟩ : Holdings).run setup.autoPrune events).2 := by
  have start : (⟨auth, .empty⟩ : Host).Holds setup.blake3 ⟨auth, .empty⟩ :=
    ⟨rfl, represents_empty⟩
  have unused : Contents.empty.references = [] := by simp [Contents.references, Contents.empty]
  apply start.run
  rw [unused, List.length_nil, Nat.zero_add]
  exact few

/-- A client that is enrolled, sends a stream with a malformed ID, ships a
snapshot and is revoked. -/
def revokedClientEvents : List DaemonEvent :=
  [.enroll "laptop" "aa",
    .called (some "aa") 1 (.uploadChunks [⟨List.replicate 32 4, [1, 2]⟩, ⟨[9], []⟩]),
    .called none 2 .listSnapshots,
    .called (some "aa") 3
      (.putManifest ⟨[5], List.replicate 16 3, [List.replicate 32 4]⟩),
    .operator (.gc 4 (.fromSecs 0)), .revoke "laptop",
    .called (some "aa") 5 (.getChunks [List.replicate 32 4])]

theorem revoked_client_is_served_its_contents :
    ((⟨some ∅, .empty⟩ : Host).run sampleSetup revokedClientEvents).1 =
        ((⟨some ∅, .empty⟩ : Holdings).run sampleSetup.autoPrune revokedClientEvents).1 ∧
      ((⟨some ∅, .empty⟩ : Host).run sampleSetup revokedClientEvents).2.Holds sampleSetup.blake3
        ((⟨some ∅, .empty⟩ : Holdings).run sampleSetup.autoPrune revokedClientEvents).2 :=
  daemon_serves_its_contents sampleSetup (some ∅) revokedClientEvents (by decide)

end Runs

end Busyncr.Daemon
