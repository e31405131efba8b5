import Busyncr.Client.BackupOperations
import Busyncr.Store.Recovery

/-!
Point-in-time restore: whatever happens to the store after a backup, its
snapshot restores to the files of that backup as long as it is listed.

A history is a list of finished backups, of other operations of the store,
and of runs of the daemon process that fail or die anywhere.  Each event comes
to a list of operations, and the contents of the store carry the invariant: a
blob of the backup set is sealed from its plaintext.
-/

namespace Busyncr.Client

open Std Store

/-- What happens to the store of a daemon: a client of the backup set finishes
a backup, or any operation of the store is carried out, or the process is
started over the `.tmp-` files that are left and makes calls, each of which
may fail or be cut off by its death. -/
inductive HistoryEvent (Threshold : Type) where
  | backup (serving : Serving) (tests : LengthTests Threshold) (nonces : Nat → Nonce)
      (request : BackupRequest Threshold)
  | store (operation : Operation)
  | process (redb : Crash.Redb) (temps : ExtTreeMap Ulid Bytes) (events : List Crash.Event)

section Events

variable {Threshold : Type} (libraries : Libraries) (keys : KeyPair) (content : Set Bytes)

def historyStep (disk : Disk) : HistoryEvent Threshold → Option Disk
  | .backup serving tests nonces request =>
      match runBackup libraries tests keys nonces (serving.backupPeer libraries.blake3) disk
          request with
      | .error _ => none
      | .ok (_, final) => some final
  | .store operation => some (operation.run libraries.blake3 disk).2
  | .process redb temps events =>
      (Transition.run (Crash.step libraries.blake3 redb) ⟨disk, temps, .down⟩ events).map
        Crash.Machine.disk

/-- Nothing is uploaded under the ID of a plaintext of the set but blobs
sealed from it. -/
def Honest (operation : Operation) : Prop :=
  ∀ plaintext ∈ content, ∀ blob, operation = .putChunk (idOf libraries keys plaintext) blob →
    SealedFrom libraries keys plaintext blob

/-- A backup of well formed roots whose chunks tile the files and are in the
set; other operations that are honest. -/
def HistoryEvent.Sound : HistoryEvent Threshold → Prop
  | .backup _ _ _ request => RootsWellFormed request.roots ∧
      (∀ bytes chunks, request.chunker bytes = some chunks → chunks.flatten = bytes) ∧
      Covers content request
  | .store operation => Honest libraries keys content operation
  | .process _ _ events =>
      ∀ operation ∈ Crash.operationsOf events, Honest libraries keys content operation

/-- How many references the manifest of a request has. -/
def BackupRequest.references (request : BackupRequest Threshold) : Nat :=
  match collectFiles request.roots with
  | .error _ => 0
  | .ok specs => referenceCount request.chunker specs

def HistoryEvent.references : HistoryEvent Threshold → Nat
  | .backup _ _ _ request => request.references
  | .store operation => operation.references
  | .process _ _ events => totalReferences (Crash.operationsOf events)

/-- The event puts the snapshot. -/
def HistoryEvent.Ships (snapshot : Ulid) : HistoryEvent Threshold → Prop
  | .backup _ _ _ request => request.snapshotId = snapshot
  | .store operation => operation.Ships snapshot
  | .process _ _ events => ∃ operation ∈ Crash.operationsOf events, operation.Ships snapshot

end Events

section Operations

variable {Threshold : Type} {libraries : Libraries} {keys : KeyPair} {content : Set Bytes}

/-- Operations of the store that some events come to. -/
structure Realised (libraries : Libraries) (keys : KeyPair) (content : Set Bytes)
    (events : List (HistoryEvent Threshold)) (operations : List Operation) : Prop where
  honest : ∀ operation ∈ operations, Honest libraries keys content operation
  counted : totalReferences operations ≤ (events.map HistoryEvent.references).sum
  shipped : ∀ operation ∈ operations, ∀ snapshot, operation.Ships snapshot →
    ∃ event ∈ events, event.Ships snapshot

theorem Realised.append {first second : List (HistoryEvent Threshold)}
    {operations more : List Operation}
    (realised : Realised libraries keys content first operations)
    (again : Realised libraries keys content second more) :
    Realised libraries keys content (first ++ second) (operations ++ more) where
  honest := by
    intro operation listed
    rcases List.mem_append.mp listed with earlier | later
    · exact realised.honest operation earlier
    · exact again.honest operation later
  counted := by
    have counted := realised.counted
    have countedAgain := again.counted
    simp only [totalReferences, List.map_append, List.sum_append] at counted countedAgain ⊢
    exact Nat.add_le_add counted countedAgain
  shipped := by
    intro operation listed snapshot ships
    rcases List.mem_append.mp listed with earlier | later
    · obtain ⟨event, inFirst, same⟩ := realised.shipped operation earlier snapshot ships
      exact ⟨event, List.mem_append_left _ inFirst, same⟩
    · obtain ⟨event, inSecond, same⟩ := again.shipped operation later snapshot ships
      exact ⟨event, List.mem_append_right _ inSecond, same⟩

theorem honest_of_sealedUpload (injective : Set.InjOn (idOf libraries keys) content)
    {operation : Operation} (uploads : SealedUpload libraries keys content operation) :
    Honest libraries keys content operation := by
  obtain ⟨plaintext, inSet, blob, sealedFrom, rfl⟩ := uploads
  intro other otherInSet data same
  injection same with sameId sameData
  obtain rfl := injective inSet otherInSet sameId
  exact sameData ▸ sealedFrom

theorem eq_of_mem_shipping {serving : Serving} {snapshot : Ulid} {blob : Bytes}
    {refs : List ChunkId} {operation : Operation}
    (listed : operation ∈ shipping serving snapshot blob refs) :
    operation = .putSnapshotAs snapshot blob refs
        (Daemon.ownerOf serving.auth serving.fingerprint) ∨
      operation = .prune serving.nowMs .defaultGrid .auto := by
  rcases List.mem_cons.mp listed with put | pruned
  · exact .inl put
  · unfold pruning at pruned
    split at pruned
    next => exact .inr (List.mem_singleton.mp pruned)
    next => cases pruned

theorem honest_of_mem_shipping {serving : Serving} {snapshot : Ulid} {blob : Bytes}
    {refs : List ChunkId} {operation : Operation}
    (listed : operation ∈ shipping serving snapshot blob refs) :
    Honest libraries keys content operation := by
  intro plaintext _ data same
  rcases eq_of_mem_shipping listed with put | pruned
  · cases put.symm.trans same
  · cases pruned.symm.trans same

theorem ships_of_mem_shipping {serving : Serving} {snapshot other : Ulid} {blob : Bytes}
    {refs : List ChunkId} {operation : Operation}
    (listed : operation ∈ shipping serving snapshot blob refs) (ships : operation.Ships other) :
    snapshot = other := by
  obtain ⟨data, ids, owner, same⟩ := ships
  rcases eq_of_mem_shipping listed with put | pruned
  · cases put.symm.trans same
    rfl
  · cases pruned.symm.trans same

theorem not_ships_of_mem_pruning {serving : Serving} {snapshot : Ulid} {operation : Operation}
    (listed : operation ∈ pruning serving) : ¬ operation.Ships snapshot := by
  unfold pruning at listed
  split at listed
  next =>
    obtain rfl := List.mem_singleton.mp listed
    rintro ⟨data, refs, owner, same⟩
    cases same
  next => cases listed

theorem totalReferences_shipping (serving : Serving) (snapshot : Ulid) (blob : Bytes)
    (refs : List ChunkId) :
    totalReferences (shipping serving snapshot blob refs) = refs.length := by
  unfold shipping pruning
  cases serving.autoPrune <;> simp [totalReferences, Operation.references]

theorem totalReferences_uploads {uploads : List Operation}
    (sealedUploads : ∀ operation ∈ uploads, SealedUpload libraries keys content operation) :
    totalReferences uploads = 0 := by
  apply List.sum_eq_zero
  intro count listed
  obtain ⟨operation, inUploads, rfl⟩ := List.mem_map.mp listed
  obtain ⟨plaintext, -, blob, -, rfl⟩ := sealedUploads operation inUploads
  rfl

theorem not_ships_of_sealedUpload {operation : Operation} {snapshot : Ulid}
    (uploads : SealedUpload libraries keys content operation) : ¬ operation.Ships snapshot := by
  obtain ⟨plaintext, -, blob, -, rfl⟩ := uploads
  rintro ⟨data, refs, owner, same⟩
  cases same

theorem length_of_captured {request : BackupRequest Threshold} {specs : List FileSpec}
    {entries : List FileEntry}
    (captured : List.Forall₂ (fun spec entry => ∃ chunks,
      request.chunker spec.file.content = some chunks ∧
        Captured libraries keys spec chunks entry) specs entries) :
    (entries.flatMap FileEntry.chunks).length = referenceCount request.chunker specs := by
  induction captured with
  | nil => rfl
  | cons head _ inductionHypothesis =>
      obtain ⟨chunks, cut, entryOk⟩ := head
      simp only [referenceCount] at inductionHypothesis ⊢
      simp [inductionHypothesis, cut, entryOk.chunks]

/-- A finished backup comes to its uploads, its snapshot and the prune. -/
theorem realised_backup (injective : Set.InjOn (idOf libraries keys) content)
    {serving : Serving} (tests : LengthTests Threshold) (nonces : Nat → Nonce)
    {request : BackupRequest Threshold} {before after : Disk} {specs : List FileSpec}
    {entries : List FileEntry} {blob : Bytes} {uploads : List Operation}
    (backedUp : BackedUp libraries keys content serving request before after specs entries blob)
    (sealedUploads : ∀ operation ∈ uploads, SealedUpload libraries keys content operation) :
    Realised libraries keys content [.backup serving tests nonces request]
      (uploads ++ shipping serving request.snapshotId blob
        (entries.flatMap FileEntry.chunks)) where
  honest := by
    intro operation listed
    rcases List.mem_append.mp listed with uploading | ending
    · exact honest_of_sealedUpload injective (sealedUploads operation uploading)
    · exact honest_of_mem_shipping ending
  counted := by
    have counted := totalReferences_shipping serving request.snapshotId blob
      (entries.flatMap FileEntry.chunks)
    rw [length_of_captured backedUp.captured] at counted
    have uploaded := totalReferences_uploads sealedUploads
    simp only [totalReferences] at counted uploaded
    simp [totalReferences, counted, uploaded, HistoryEvent.references, BackupRequest.references,
      backedUp.collected]
  shipped := by
    intro operation listed snapshot ships
    rcases List.mem_append.mp listed with uploading | ending
    · exact absurd ships (not_ships_of_sealedUpload (sealedUploads operation uploading))
    · exact ⟨_, List.mem_singleton_self _, ships_of_mem_shipping ending ships⟩

theorem realised_store {operation : Operation}
    (honest : Honest libraries keys content operation) :
    Realised libraries keys content ([.store operation] : List (HistoryEvent Threshold))
      [operation] where
  honest := by simpa using honest
  counted := by simp [totalReferences, HistoryEvent.references]
  shipped := by
    intro other listed snapshot ships
    obtain rfl := List.mem_singleton.mp listed
    exact ⟨_, List.mem_singleton_self _, ships⟩

/-- A run of the process comes to some operations of its calls, and to
deletions of prunes. -/
theorem realised_process {redb : Crash.Redb} {temps : ExtTreeMap Ulid Bytes}
    {events : List Crash.Event} {operations : List Operation}
    (honest : ∀ operation ∈ Crash.operationsOf events, Honest libraries keys content operation)
    (counted : totalReferences operations ≤ totalReferences (Crash.operationsOf events))
    (known : ∀ operation ∈ operations, operation ∈ Crash.operationsOf events ∨
      ∃ snapshot, operation = .deleteSnapshot snapshot) :
    Realised libraries keys content
      ([.process redb temps events] : List (HistoryEvent Threshold)) operations where
  honest := by
    intro operation listed
    rcases known operation listed with begun | ⟨snapshot, rfl⟩
    · exact honest operation begun
    · rintro plaintext - blob same
      cases same
  counted := by simpa [HistoryEvent.references] using counted
  shipped := by
    intro operation listed snapshot ships
    rcases known operation listed with begun | ⟨deleted, rfl⟩
    · exact ⟨_, List.mem_singleton_self _, operation, begun, ships⟩
    · obtain ⟨blob, refs, owner, same⟩ := ships
      cases same

theorem exists_backedUp_of_historyStep {serving : Serving} {tests : LengthTests Threshold}
    {nonces : Nat → Nonce} {request : BackupRequest Threshold} {disk next : Disk}
    (sound : (HistoryEvent.backup serving tests nonces request).Sound libraries keys content)
    (stepped : historyStep libraries keys disk (.backup serving tests nonces request) =
      some next) :
    ∃ specs entries blob,
      BackedUp libraries keys content serving request disk next specs entries blob := by
  simp only [historyStep] at stepped
  split at stepped
  next => cases stepped
  next report final finished =>
    cases stepped
    exact exists_backedUp_of_runBackup sound.2.2 finished

theorem exists_realised_of_historyStep (injective : Set.InjOn (idOf libraries keys) content)
    {event : HistoryEvent Threshold} {disk next : Disk} {contents : Contents}
    (sound : event.Sound libraries keys content)
    (represents : Store.Represents libraries.blake3 disk contents)
    (few : contents.references.length + event.references < 2 ^ 64)
    (stepped : historyStep libraries keys disk event = some next) :
    ∃ operations, Realised libraries keys content [event] operations ∧
      Store.Represents libraries.blake3 next (contents.performAll operations) := by
  cases event with
  | backup serving tests nonces request =>
      obtain ⟨specs, entries, blob, backedUp⟩ := exists_backedUp_of_historyStep sound stepped
      obtain ⟨middle, ⟨uploads, sealedUploads, rfl⟩, ran, -⟩ := backedUp.shipped
      have realised := realised_backup injective tests nonces backedUp sealedUploads
      refine ⟨_, realised, ?_⟩
      rw [ran, ← runAll_append]
      apply represents.performAll
      have counted := realised.counted
      rw [List.map_singleton, List.sum_singleton] at counted
      exact Nat.lt_of_le_of_lt (Nat.add_le_add_left counted _) few
  | store operation =>
      cases stepped
      exact ⟨[operation], realised_store sound, (represents.perform operation few).2⟩
  | process redb temps events =>
      obtain ⟨machine, executed, rfl⟩ := Option.map_eq_some_iff.mp stepped
      obtain ⟨operations, held, counted, known⟩ :=
        Crash.exists_operations_of_run represents rfl executed
      exact ⟨operations, realised_process sound counted known, held⟩

theorem exists_realised_of_run (injective : Set.InjOn (idOf libraries keys) content)
    {events : List (HistoryEvent Threshold)} {disk final : Disk} {contents : Contents}
    (sound : ∀ event ∈ events, event.Sound libraries keys content)
    (represents : Store.Represents libraries.blake3 disk contents)
    (few : contents.references.length + (events.map HistoryEvent.references).sum < 2 ^ 64)
    (executed : Transition.run (historyStep libraries keys) disk events = some final) :
    ∃ operations, Realised libraries keys content events operations ∧
      Store.Represents libraries.blake3 final (contents.performAll operations) := by
  induction events generalizing disk contents with
  | nil =>
      cases executed
      exact ⟨[], ⟨by simp, by simp [totalReferences], by simp⟩, represents⟩
  | cons event rest inductionHypothesis =>
      obtain ⟨head, tail⟩ := List.forall_mem_cons.mp sound
      obtain ⟨next, stepped, continued⟩ := Transition.run_cons_eq_some executed
      rw [List.map_cons, List.sum_cons] at few
      obtain ⟨operations, realised, onward⟩ := exists_realised_of_historyStep injective head
        represents (by omega) stepped
      have added := contents.length_references_performAll operations
      have counted := realised.counted
      rw [List.map_singleton, List.sum_singleton] at counted
      obtain ⟨more, again, final⟩ := inductionHypothesis tail onward (by omega) continued
      rw [← Contents.performAll_append] at final
      exact ⟨operations ++ more, realised.append again, final⟩

/-- A held blob under the ID of a plaintext of the set is sealed from it. -/
def SealedContents (libraries : Libraries) (keys : KeyPair) (content : Set Bytes)
    (contents : Contents) : Prop :=
  ∀ plaintext ∈ content, ∀ blob,
    contents.blobs[idOf libraries keys plaintext]? = some blob →
      SealedFrom libraries keys plaintext blob

theorem SealedContents.performAll {contents : Contents} {operations : List Operation}
    (sealedContents : SealedContents libraries keys content contents)
    (honest : ∀ operation ∈ operations, Honest libraries keys content operation) :
    SealedContents libraries keys content (contents.performAll operations) := by
  induction operations generalizing contents with
  | nil => exact sealedContents
  | cons operation rest inductionHypothesis =>
      obtain ⟨head, tail⟩ := List.forall_mem_cons.mp honest
      apply inductionHypothesis ?_ tail
      intro plaintext inSet blob held
      rcases Contents.blobs_perform_cases held with before | uploads
      · exact sealedContents plaintext inSet blob before
      · exact head plaintext inSet blob uploads

end Operations

section Restores

variable {Threshold : Type} {fs : FileSystem} {libraries : Libraries} {keys : KeyPair}
  {content : Set Bytes} {reader : Serving}

/-- The tree holds the files of the list and no others. -/
def RestoredAs (tree : Tree) (specs : List FileSpec) : Prop :=
  ∀ (path : List String) (file : RestoredFile), tree[path]? = some (.file file) ↔
    ∃ spec ∈ specs, splitPath spec.rel = path ∧ restoredOf spec = file

theorem Rebuilt.restoredAs {tree : Tree} {specs : List FileSpec} (rebuilt : Rebuilt tree specs) :
    RestoredAs tree specs := by
  intro path file
  constructor
  · intro found
    obtain ⟨spec, listed, _, isDir | isFile⟩ := rebuilt.only path _ found
    · cases isDir
    · rw [isFile, rebuilt.each spec listed] at found
      cases found
      exact ⟨spec, listed, isFile.symm, rfl⟩
  · rintro ⟨spec, listed, rfl, rfl⟩
    exact rebuilt.each spec listed

/-- A live snapshot of a backup over sealed contents restores. -/
theorem exists_restored_of_live (succeeds : fs.Succeeds) (aeadInverts : libraries.aead.Inverts)
    (zstdInverts : libraries.compressors.Inverts)
    (admitted : Daemon.authenticate reader.auth reader.fingerprint = .ok ())
    {request : BackupRequest Threshold} {serving : Serving} {before after disk : Disk}
    {specs : List FileSpec} {entries : List FileEntry} {blob : Bytes} {owner : Option String}
    {contents : Contents} {target : Target}
    (wellFormed : RootsWellFormed request.roots)
    (tiles : ∀ bytes chunks, request.chunker bytes = some chunks → chunks.flatten = bytes)
    (covers : Covers content request)
    (backedUp : BackedUp libraries keys content serving request before after specs entries blob)
    (represents : Store.Represents libraries.blake3 disk contents) (closed : contents.Closed)
    (sealedContents : SealedContents libraries keys content contents)
    (live : contents.live[request.snapshotId]? =
      some ⟨blob, owner, entries.flatMap FileEntry.chunks⟩)
    (emptyTarget : target = .absent ∨ target = .dir ∅) :
    ∃ report tree, runRestore fs libraries keys (reader.restorePeer libraries.blake3) disk
      request.snapshotId target = .ok (report, tree) ∧ RestoredAs tree specs := by
  obtain ⟨apart, sanitized⟩ := collectFiles_ok wellFormed backedUp.collected
  have held : List.Forall₂ (fun spec entry => ∃ chunks, chunks.flatten = spec.file.content ∧
      Captured libraries keys spec chunks entry ∧
      ∀ plaintext ∈ chunks, Holds libraries keys disk plaintext) specs entries := by
    refine List.forall₂_iff_zip.mpr ⟨backedUp.captured.length_eq, fun {spec entry} paired => ?_⟩
    obtain ⟨listed, inEntries⟩ := List.of_mem_zip paired
    obtain ⟨chunks, cut, entryOk⟩ := (List.forall₂_iff_zip.mp backedUp.captured).2 paired
    refine ⟨chunks, tiles _ _ cut, entryOk, fun plaintext inChunks => ?_⟩
    have inSet := covers specs backedUp.collected spec listed chunks cut plaintext inChunks
    have referenced : idOf libraries keys plaintext ∈ contents.references := by
      refine Contents.mem_references_iff.mpr ⟨_, _, live, ?_⟩
      refine List.mem_flatMap.mpr ⟨entry, inEntries, ?_⟩
      rw [entryOk.chunks]
      exact List.mem_map_of_mem inChunks
    obtain ⟨data, found⟩ := Option.isSome_iff_exists.mp
      (ExtTreeMap.mem_iff_isSome_getElem?.mp (closed _ referenced))
    refine ⟨data, sealedContents plaintext inSet data found, ?_⟩
    rw [represents.fetched]
    exact Contents.getChunk_eq_ok_iff.mpr found
  obtain ⟨report, tree, completed, rebuilt⟩ := restoreFiles_complete succeeds aeadInverts
    zstdInverts admitted rebuilt_empty (by simpa using apart) sanitized held
  rw [List.nil_append] at rebuilt
  refine ⟨report, tree, ?_, rebuilt.restoredAs⟩
  have emptied : ensureEmptyTarget fs target = .ok ∅ := by
    rcases emptyTarget with rfl | rfl
    · rw [ensureEmptyTarget, if_pos (succeeds.permits _ _)]
    · rfl
  obtain ⟨encoded, nonce, encodedOk, sealedOk⟩ := backedUp.sealedManifest
  have stored : getManifestBlob disk.tables request.snapshotId = .ok blob := by
    rw [represents.getManifestBlob_eq, Contents.getManifestBlob, live]
  have answered : (reader.restorePeer libraries.blake3).getManifest disk
      request.snapshotId.toBytes = (.ok blob, disk) := by
    simp only [Serving.restorePeer, Serving.handle, admitted, Daemon.getManifest,
      Daemon.parseSnapshotId_toBytes, stored]
  have opened : decryptManifest libraries.aead keys.dataKey request.snapshotId blob =
      .ok encoded := openBlob_of_sealBlob aeadInverts sealedOk
  simp only [runRestore, emptied, answered, opened, Manifest.decode_of_encode encodedOk]
  exact completed

theorem sealedContents_empty : SealedContents libraries keys content .empty := by
  intro plaintext _ blob held
  simp [Contents.empty] at held

/-- A backup over sealed contents whose snapshot is listed at the end is live
over sealed contents. -/
theorem exists_live_of_backup (injective : Set.InjOn (idOf libraries keys) content)
    {later : List (HistoryEvent Threshold)} {serving : Serving} {tests : LengthTests Threshold}
    {nonces : Nat → Nonce} {request : BackupRequest Threshold} {disk next final : Disk}
    {contents : Contents} (represents : Store.Represents libraries.blake3 disk contents)
    (closed : contents.Closed) (sealedContents : SealedContents libraries keys content contents)
    (sound : ∀ event ∈ .backup serving tests nonces request :: later,
      event.Sound libraries keys content)
    (few : contents.references.length + (request.references +
      (later.map HistoryEvent.references).sum) < 2 ^ 64)
    (fresh : ∀ event ∈ later, ¬ event.Ships request.snapshotId)
    (stepped : historyStep libraries keys disk (.backup serving tests nonces request) = some next)
    (continued : Transition.run (historyStep libraries keys) next later = some final)
    (listed : request.snapshotId ∈ listSnapshots final.tables) :
    ∃ before after specs entries blob,
      BackedUp libraries keys content serving request before after specs entries blob ∧
      ∃ contents, Store.Represents libraries.blake3 final contents ∧ contents.Closed ∧
        SealedContents libraries keys content contents ∧
        contents.live[request.snapshotId]? = some ⟨blob,
          Daemon.ownerOf serving.auth serving.fingerprint, entries.flatMap FileEntry.chunks⟩ := by
  obtain ⟨soundBackup, soundLater⟩ := List.forall_mem_cons.mp sound
  obtain ⟨specs, entries, blob, backedUp⟩ := exists_backedUp_of_historyStep soundBackup stepped
  obtain ⟨middle, ⟨uploads, sealedUploads, rfl⟩, ran, accepted⟩ := backedUp.shipped
  have references : (entries.flatMap FileEntry.chunks).length = request.references := by
    rw [length_of_captured backedUp.captured]
    simp only [BackupRequest.references, backedUp.collected]
  have uploaded := totalReferences_uploads sealedUploads
  have atMiddle := represents.performAll uploads (by omega)
  have middleBound := contents.length_references_performAll uploads
  have shipped := totalReferences_shipping serving request.snapshotId blob
    (entries.flatMap FileEntry.chunks)
  have atNext := atMiddle.performAll (shipping serving request.snapshotId blob
    (entries.flatMap FileEntry.chunks)) (by omega)
  have nextBound := (contents.performAll uploads).length_references_performAll
    (shipping serving request.snapshotId blob (entries.flatMap FileEntry.chunks))
  rw [← ran] at atNext
  obtain ⟨last, realised, atEnd⟩ := exists_realised_of_run injective soundLater atNext
    (by omega) continued
  rw [← Contents.performAll_append] at atEnd
  have unshipped : ∀ operation ∈ pruning serving ++ last,
      ¬ operation.Ships request.snapshotId := by
    intro operation inTail ships
    rcases List.mem_append.mp inTail with pruned | after
    · exact not_ships_of_mem_pruning pruned ships
    · obtain ⟨event, inLater, same⟩ := realised.shipped operation after _ ships
      exact fresh event inLater same
  have live := atMiddle.live_of_listed (by omega) accepted unshipped atEnd listed
  refine ⟨disk, next, specs, entries, blob, backedUp, _, atEnd,
    (closed.performAll uploads).performAll _, ?_, live⟩
  apply SealedContents.performAll
  · exact sealedContents.performAll fun operation uploading =>
      honest_of_sealedUpload injective (sealedUploads operation uploading)
  · intro operation inTail
    rcases List.mem_append.mp inTail with ending | after
    · exact honest_of_mem_shipping ending
    · exact realised.honest operation after

theorem exists_live_of_history (injective : Set.InjOn (idOf libraries keys) content)
    {earlier later : List (HistoryEvent Threshold)} {serving : Serving}
    {tests : LengthTests Threshold} {nonces : Nat → Nonce} {request : BackupRequest Threshold}
    {final : Disk}
    (sound : ∀ event ∈ earlier ++ .backup serving tests nonces request :: later,
      event.Sound libraries keys content)
    (few : ((earlier ++ .backup serving tests nonces request :: later).map
      HistoryEvent.references).sum < 2 ^ 64)
    (fresh : ∀ event ∈ later, ¬ event.Ships request.snapshotId)
    (executed : Transition.run (historyStep libraries keys) .empty
      (earlier ++ .backup serving tests nonces request :: later) = some final)
    (listed : request.snapshotId ∈ listSnapshots final.tables) :
    ∃ before after specs entries blob,
      BackedUp libraries keys content serving request before after specs entries blob ∧
      ∃ contents, Store.Represents libraries.blake3 final contents ∧ contents.Closed ∧
        SealedContents libraries keys content contents ∧
        contents.live[request.snapshotId]? = some ⟨blob,
          Daemon.ownerOf serving.auth serving.fingerprint, entries.flatMap FileEntry.chunks⟩ := by
  obtain ⟨disk, executedEarlier, executedRest⟩ := Transition.run_append_eq_some executed
  obtain ⟨next, stepped, continued⟩ := Transition.run_cons_eq_some executedRest
  rw [List.map_append, List.map_cons, List.sum_append, List.sum_cons] at few
  have nothing : Contents.empty.references.length = 0 := by simp
  obtain ⟨first, realised, represents⟩ := exists_realised_of_run injective
    (fun event inEarlier => sound event (List.mem_append_left _ inEarlier)) represents_empty
    (by omega) executedEarlier
  have bound := Contents.empty.length_references_performAll first
  have counted := realised.counted
  simp only [HistoryEvent.references] at few
  exact exists_live_of_backup injective represents (Contents.closed_empty.performAll first)
    (sealedContents_empty.performAll realised.honest)
    (fun event inRest => sound event (List.mem_append_right _ inRest)) (by omega) fresh stepped
    continued listed

/-- Once a backup is finished its snapshot restores to the files it captured,
whatever happened before and happens after, as long as it is listed and its
ID is not put again. -/
theorem every_listed_backup_restores (succeeds : fs.Succeeds)
    (aeadInverts : libraries.aead.Inverts) (zstdInverts : libraries.compressors.Inverts)
    (injective : Set.InjOn (idOf libraries keys) content)
    {earlier later : List (HistoryEvent Threshold)} {serving : Serving}
    {tests : LengthTests Threshold} {nonces : Nat → Nonce} {request : BackupRequest Threshold}
    {final : Disk} {target : Target}
    (sound : ∀ event ∈ earlier ++ .backup serving tests nonces request :: later,
      event.Sound libraries keys content)
    (few : ((earlier ++ .backup serving tests nonces request :: later).map
      HistoryEvent.references).sum < 2 ^ 64)
    (fresh : ∀ event ∈ later, ¬ event.Ships request.snapshotId)
    (executed : Transition.run (historyStep libraries keys) .empty
      (earlier ++ .backup serving tests nonces request :: later) = some final)
    (listed : request.snapshotId ∈ listSnapshots final.tables)
    (admitted : Daemon.authenticate reader.auth reader.fingerprint = .ok ())
    (emptyTarget : target = .absent ∨ target = .dir ∅) :
    ∃ specs report tree, collectFiles request.roots = .ok specs ∧
      runRestore fs libraries keys (reader.restorePeer libraries.blake3) final
        request.snapshotId target = .ok (report, tree) ∧ RestoredAs tree specs := by
  obtain ⟨wellFormed, tiles, covers⟩ := sound _ (List.mem_append_right _ List.mem_cons_self)
  obtain ⟨before, after, specs, entries, blob, backedUp, contents, represents, closed,
    sealedContents, live⟩ := exists_live_of_history injective sound few fresh executed listed
  obtain ⟨report, tree, completed, restored⟩ := exists_restored_of_live succeeds aeadInverts
    zstdInverts admitted wellFormed tiles covers backedUp represents closed sealedContents live
    emptyTarget
  exact ⟨specs, report, tree, backedUp.collected, completed, restored⟩

end Restores

section Sample

/-- Another snapshot comes first; after the backup the store is collected and
pruned, and the process dies in another gc. -/
def sampleEarlier : List (HistoryEvent Unit) :=
  [.store (.putSnapshotAs (.fromParts 0 7) [5] [] none)]

def sampleDeath : List Crash.Event :=
  [.openStore, .call (.gc 25 (.fromSecs 0)), .commit, .crash]

def sampleLater : List (HistoryEvent Unit) :=
  [.store (.gc 20 (.fromSecs 0)), .store (.deleteSnapshot (.fromParts 0 7)),
    .process .full ∅ sampleDeath, .store (.prune 30 .defaultGrid .auto)]

def sampleHistory : List (HistoryEvent Unit) :=
  sampleEarlier ++ .backup sampleServing sampleTests sampleNonces sampleRequest :: sampleLater

theorem operationsOf_sampleDeath :
    Crash.operationsOf sampleDeath = [.gc 25 (.fromSecs 0)] := rfl

theorem sampleHistory_sound (libraries : Libraries) (keys : KeyPair) :
    ∀ event ∈ sampleHistory, event.Sound libraries keys sampleContent := by
  intro event listed
  simp only [sampleHistory, sampleEarlier, sampleLater, List.cons_append, List.nil_append,
    List.mem_cons, List.not_mem_nil, or_false] at listed
  rcases listed with rfl | rfl | rfl | rfl | rfl | rfl
  · rintro plaintext - blob same
    cases same
  · exact ⟨sampleRequest_wellFormed, sampleRequest_tiles, sampleRequest_covers⟩
  · rintro plaintext - blob same
    cases same
  · rintro plaintext - blob same
    cases same
  · intro operation begun
    rw [operationsOf_sampleDeath] at begun
    obtain rfl := List.mem_singleton.mp begun
    rintro plaintext - blob same
    cases same
  · rintro plaintext - blob same
    cases same

theorem sampleLater_fresh : ∀ event ∈ sampleLater, ¬ event.Ships sampleRequest.snapshotId := by
  intro event listed
  simp only [sampleLater, List.mem_cons, List.not_mem_nil, or_false] at listed
  rcases listed with rfl | rfl | rfl | rfl
  · rintro ⟨blob, refs, owner, same⟩
    cases same
  · rintro ⟨blob, refs, owner, same⟩
    cases same
  · rintro ⟨operation, begun, blob, refs, owner, rfl⟩
    rw [operationsOf_sampleDeath] at begun
    cases List.mem_singleton.mp begun
  · rintro ⟨blob, refs, owner, same⟩
    cases same

theorem sample_history_restores :
    ∃ final, Transition.run (historyStep sampleLibraries sampleKeys) .empty sampleHistory =
        some final ∧
      ∃ specs report tree, collectFiles sampleRequest.roots = .ok specs ∧
        runRestore sampleVolume sampleLibraries sampleKeys
          (sampleServing.restorePeer sampleLibraries.blake3) final sampleRequest.snapshotId
            .absent = .ok (report, tree) ∧ RestoredAs tree specs := by
  have enabled : ((Transition.run (historyStep sampleLibraries sampleKeys) .empty
      sampleHistory).any fun final =>
        decide (sampleRequest.snapshotId ∈ listSnapshots final.tables)) = true := by
    decide +kernel
  obtain ⟨final, executed, listed⟩ := (Option.any_eq_true _ _).mp enabled
  refine ⟨final, executed, ?_⟩
  exact every_listed_backup_restores sampleVolume_succeeds sampleRecords_coherent.inverts
    sampleCompressors_invert sampleContent_injective
    (sampleHistory_sound _ _) (by decide +kernel)
    sampleLater_fresh executed (of_decide_eq_true listed) rfl (.inl rfl)

end Sample

end Busyncr.Client
