import Busyncr.Store.Refinement

/-!
`ChunkStore::status`: the figures an operator sees, read from four tables in
one transaction.
-/

namespace Busyncr.Store

open Std

def PruneMode.fromByte (byte : UInt8) : PruneMode := if byte = 0 then .auto else .manual

/-- Decode the `last_prune` record; a malformed width yields no event. -/
def decodePruneEvent (raw : Bytes) : Option PruneEvent :=
  if raw.length = 9 then some ⟨fromLeBytes (raw.take 8), .fromByte (raw.getD 8 0)⟩ else none

/-- Decode the `last_gc` record. -/
def decodeGcEvent (raw : Bytes) : Option GcEvent :=
  if raw.length = 8 then some ⟨fromLeBytes raw⟩ else none

/-- What is read of the snapshots. -/
structure SnapshotCounts where
  total : UInt64
  byClient : ExtTreeMap String UInt64

/-- The loop over the snapshots; one without an owner counts for the empty
name. -/
def countSnapshots (owners : ExtTreeMap Ulid String) : List Ulid → SnapshotCounts → SnapshotCounts
  | [], counts => counts
  | snapshot :: rest, counts =>
      let owner := owners[snapshot]?.getD ""
      countSnapshots owners rest
        { total := counts.total + 1
          byClient := counts.byClient.insert owner (counts.byClient[owner]?.getD 0 + 1) }

/-- What is read of the chunk index. -/
structure ChunkCounts where
  unique : UInt64
  bytes : UInt64
  zeroRef : UInt64

/-- The loop over the index. -/
def countIndex : List (ChunkId × IndexEntry) → ChunkCounts → ChunkCounts
  | [], counts => counts
  | (_, entry) :: rest, counts =>
      countIndex rest
        { unique := counts.unique + 1
          bytes := counts.bytes + entry.chunkLen
          zeroRef := if entry.refcount = 0 then counts.zeroRef + 1 else counts.zeroRef }

structure DaemonStatus where
  snapshotsTotal : UInt64
  snapshotsByClient : ExtTreeMap String UInt64
  chunksUnique : UInt64
  storeBytes : UInt64
  zeroRefChunks : UInt64
  lastPrune : Option PruneEvent
  lastGc : Option GcEvent

def status (tables : Tables) : DaemonStatus :=
  let snapshots := countSnapshots tables.snapshotOwner tables.snapshots.keys ⟨0, ∅⟩
  let chunks := countIndex (indexEntries tables) ⟨0, 0, 0⟩
  { snapshotsTotal := snapshots.total
    snapshotsByClient := snapshots.byClient
    chunksUnique := chunks.unique
    storeBytes := chunks.bytes
    zeroRefChunks := chunks.zeroRef
    lastPrune := tables.statusMeta[lastPruneKey]?.bind decodePruneEvent
    lastGc := tables.statusMeta[lastGcKey]?.bind decodeGcEvent }

@[simp]
theorem PruneMode.fromByte_toByte (mode : PruneMode) : fromByte mode.toByte = mode := by
  cases mode <;> rfl

@[simp]
theorem decodePruneEvent_encode (event : PruneEvent) :
    decodePruneEvent (encodePruneEvent event.atMs event.mode) = some event := by
  simp [decodePruneEvent, encodePruneEvent]

@[simp]
theorem decodeGcEvent_encode (event : GcEvent) :
    decodeGcEvent (toLeBytes event.atMs) = some event := by
  simp [decodeGcEvent]

section Counting

/-- How many of the snapshots count for the client. -/
def sharesOf (owners : ExtTreeMap Ulid String) (snapshots : List Ulid) (client : String) : Nat :=
  snapshots.countP fun snapshot => owners[snapshot]?.getD "" = client

/-- The loop has counted these snapshots. -/
structure Counted (owners : ExtTreeMap Ulid String) (seen : List Ulid) (counts : SnapshotCounts) :
    Prop where
  total : counts.total = UInt64.ofNat seen.length
  clients : ∀ client : String, counts.byClient[client]? =
    if sharesOf owners seen client = 0 then none
    else some (UInt64.ofNat (sharesOf owners seen client))
  sums : seen.length < 2 ^ 64 → OrderedTable.total UInt64.toNat counts.byClient = seen.length

theorem sharesOf_concat (owners : ExtTreeMap Ulid String) (seen : List Ulid) (snapshot : Ulid)
    (client : String) :
    sharesOf owners (seen ++ [snapshot]) client = sharesOf owners seen client +
      if owners[snapshot]?.getD "" = client then 1 else 0 := by
  simp [sharesOf, List.countP_append, List.countP_singleton]

theorem sharesOf_le (owners : ExtTreeMap Ulid String) (seen : List Ulid) (client : String) :
    sharesOf owners seen client ≤ seen.length :=
  List.countP_le_length

variable {owners : ExtTreeMap Ulid String} {seen : List Ulid} {counts : SnapshotCounts}

theorem counted_nil (owners : ExtTreeMap Ulid String) : Counted owners [] ⟨0, ∅⟩ :=
  ⟨rfl, by simp [sharesOf], by simp [OrderedTable.total]⟩

/-- The count of a client before its next snapshot. -/
theorem Counted.before (counted : Counted owners seen counts) (client : String) :
    counts.byClient[client]?.getD 0 = UInt64.ofNat (sharesOf owners seen client) := by
  rw [counted.clients]
  split
  next none => simp [none]
  next => rfl

theorem Counted.concat (counted : Counted owners seen counts) (snapshot : Ulid) :
    let owner := owners[snapshot]?.getD ""
    Counted owners (seen ++ [snapshot]) ⟨counts.total + 1,
      counts.byClient.insert owner (counts.byClient[owner]?.getD 0 + 1)⟩ := by
  intro owner
  refine ⟨?_, ?_, ?_⟩
  · rw [List.length_append, UInt64.ofNat_add, counted.total]
    rfl
  · intro client
    rw [OrderedTable.getElem?_insert_eq, sharesOf_concat, counted.before]
    split
    next same =>
      subst same
      simp
    next different =>
      rw [Nat.add_zero]
      exact counted.clients client
  · intro bound
    rw [List.length_append, List.length_singleton] at bound ⊢
    have few := sharesOf_le owners seen owner
    have earlier := counted.sums (by omega)
    have old : (counts.byClient[owner]?.map UInt64.toNat).getD 0 =
        sharesOf owners seen owner := by
      rw [counted.clients]
      split
      next none => simp [none]
      next => simp; omega
    have grown : (counts.byClient[owner]?.getD 0 + 1).toNat = sharesOf owners seen owner + 1 := by
      rw [counted.before, UInt64.toNat_add, UInt64.toNat_ofNat']
      simp
      omega
    have changed := OrderedTable.total_insert UInt64.toNat counts.byClient owner
      (counts.byClient[owner]?.getD 0 + 1)
    rw [old, grown] at changed
    dsimp only
    omega

theorem counted_countSnapshots (counted : Counted owners seen counts) (rest : List Ulid) :
    Counted owners (seen ++ rest) (countSnapshots owners rest counts) := by
  induction rest generalizing seen counts with
  | nil => simpa [countSnapshots] using counted
  | cons snapshot rest inductionHypothesis =>
      have next := inductionHypothesis (counted.concat snapshot)
      rwa [List.append_assoc, List.singleton_append] at next

theorem countIndex_eq (entries : List (ChunkId × IndexEntry)) (counts : ChunkCounts) :
    countIndex entries counts =
      { unique := counts.unique + UInt64.ofNat entries.length
        bytes := counts.bytes + UInt64.ofNat (entries.map fun item => item.2.chunkLen.toNat).sum
        zeroRef := counts.zeroRef + UInt64.ofNat
          (entries.filter fun item => item.2.refcount = 0).length } := by
  induction entries generalizing counts with
  | nil => simp [countIndex]
  | cons item rest inductionHypothesis =>
      obtain ⟨id, entry⟩ := item
      simp only [countIndex, inductionHypothesis, List.length_cons, List.map_cons, List.sum_cons,
        UInt64.ofNat_add, UInt64.ofNat_toNat, ChunkCounts.mk.injEq]
      refine ⟨?_, UInt64.add_assoc _ _ _, ?_⟩
      · rw [UInt64.add_assoc, UInt64.add_comm 1]
        rfl
      · by_cases zero : entry.refcount = 0
        · simp only [zero, if_true, decide_true, List.filter_cons_of_pos, List.length_cons,
            UInt64.ofNat_add, UInt64.add_assoc]
          rw [UInt64.add_comm 1]
          rfl
        · simp [zero]

end Counting

/-- Who shipped a live snapshot; the empty name if that is not known. -/
def Contents.ownerOf (contents : Contents) (snapshot : Ulid) : String :=
  (contents.live[snapshot]?.bind Shipped.owner).getD ""

/-- The live snapshots shipped by a client. -/
def Contents.ownedBy (contents : Contents) (client : String) : List Ulid :=
  contents.live.keys.filter fun snapshot => contents.ownerOf snapshot = client

/-- The length of the blob that is fetched. -/
def fetchedLen (blake3 : Blake3) (disk : Disk) (id : ChunkId) : Nat :=
  match getChunk blake3 disk id with
  | .ok data => data.length
  | .error _ => 0

/-- The prune an operation completes. -/
def Operation.pruneEvent? : Operation → Option PruneEvent
  | .prune nowMs _ mode => some ⟨nowMs, mode⟩
  | _ => none

def Operation.gcEvent? : Operation → Option GcEvent
  | .gc nowMs _ => some ⟨nowMs⟩
  | _ => none

/-- What a status should say of a disk after some operations. -/
structure DaemonStatus.Exact (blake3 : Blake3) (operations : List Operation) (disk : Disk)
    (status : DaemonStatus) : Prop where
  snapshotsTotal : status.snapshotsTotal.toNat = (contentsAfter operations).live.size
  snapshotsByClient : ∀ client : String, status.snapshotsByClient[client]?.map UInt64.toNat =
    if ((contentsAfter operations).ownedBy client).length = 0 then none
    else some ((contentsAfter operations).ownedBy client).length
  clientsSum : OrderedTable.total UInt64.toNat status.snapshotsByClient =
    status.snapshotsTotal.toNat
  chunksUnique : status.chunksUnique.toNat = disk.tables.chunks.size
  fetched : ∀ id ∈ disk.tables.chunks, ∃ data, getChunk blake3 disk id = .ok data
  storeBytes : status.storeBytes.toNat =
    (disk.tables.chunks.keys.map (fetchedLen blake3 disk)).sum
  zeroRefChunks : status.zeroRefChunks.toNat = (contentsAfter operations).unreferenced.length
  lastPrune : status.lastPrune = (operations.filterMap Operation.pruneEvent?).getLast?
  lastGc : status.lastGc = (operations.filterMap Operation.gcEvent?).getLast?

section Truth

variable {blake3 : Blake3} {disk : Disk} {contents : Contents}

theorem contentsAfter_concat (operations : List Operation) (operation : Operation) :
    contentsAfter (operations ++ [operation]) =
      ((contentsAfter operations).perform operation).2 := by
  rw [contentsAfter, List.foldl_append]
  rfl

/-- Only a prune changes the last prune. -/
theorem Contents.lastPrune_perform (contents : Contents) (operation : Operation) :
    (contents.perform operation).2.lastPrune =
      operation.pruneEvent?.or contents.lastPrune := by
  cases operation with
  | putChunk id data =>
      simp only [perform, Operation.pruneEvent?, Option.none_or]
      split <;> rfl
  | putSnapshotAs snapshot blob refs owner =>
      simp only [perform, Operation.pruneEvent?, Option.none_or]
      split
      · rfl
      · split <;> rfl
  | deleteSnapshot snapshot =>
      simp only [perform, Operation.pruneEvent?, Option.none_or]
      split <;> rfl
  | deleteChunk id =>
      simp only [perform, Operation.pruneEvent?, Option.none_or]
      split
      · rfl
      · split <;> rfl
  | prune nowMs policy mode => rfl
  | gc nowMs grace => rfl

/-- Only a gc changes the last gc. -/
theorem Contents.lastGc_perform (contents : Contents) (operation : Operation) :
    (contents.perform operation).2.lastGc = operation.gcEvent?.or contents.lastGc := by
  cases operation with
  | putChunk id data =>
      simp only [perform, Operation.gcEvent?, Option.none_or]
      split <;> rfl
  | putSnapshotAs snapshot blob refs owner =>
      simp only [perform, Operation.gcEvent?, Option.none_or]
      split
      · rfl
      · split <;> rfl
  | deleteSnapshot snapshot =>
      simp only [perform, Operation.gcEvent?, Option.none_or]
      split <;> rfl
  | deleteChunk id =>
      simp only [perform, Operation.gcEvent?, Option.none_or]
      split
      · rfl
      · split <;> rfl
  | prune nowMs policy mode => rfl
  | gc nowMs grace => rfl

theorem lastEvents_contentsAfter (operations : List Operation) :
    (contentsAfter operations).lastPrune =
        (operations.filterMap Operation.pruneEvent?).getLast? ∧
      (contentsAfter operations).lastGc =
        (operations.filterMap Operation.gcEvent?).getLast? := by
  induction operations using List.reverseRecOn with
  | nil => exact ⟨rfl, rfl⟩
  | append_singleton operations operation inductionHypothesis =>
      obtain ⟨prunes, gcs⟩ := inductionHypothesis
      rw [contentsAfter_concat, Contents.lastPrune_perform, Contents.lastGc_perform, prunes, gcs]
      simp only [List.filterMap_append, List.getLast?_append]
      constructor
      · cases operation <;> rfl
      · cases operation <;> rfl

theorem Represents.sharesOf_eq (represents : Represents blake3 disk contents)
    (client : String) :
    sharesOf disk.tables.snapshotOwner disk.tables.snapshots.keys client =
      (contents.ownedBy client).length := by
  have keys : contents.live.keys = disk.tables.snapshots.keys := represents.keys_eq
  rw [sharesOf, List.countP_eq_length_filter, Contents.ownedBy, keys]
  simp only [represents.owners, Contents.ownerOf]
  rfl

/-- What the index records of a chunk is the length of its blob. -/
theorem Represents.chunkLen_toNat (represents : Represents blake3 disk contents)
    (room : OrderedTable.total List.length disk.objects < 2 ^ 64) {id : ChunkId}
    {entry : IndexEntry} (found : chunkEntry disk.tables.chunks id = some entry) :
    ∃ data, getChunk blake3 disk id = .ok data ∧ entry.chunkLen.toNat = data.length ∧
      data.length ≤ (disk.objects[id]?.map List.length).getD 0 := by
  have indexed : id ∈ contents.blobs := by
    rw [represents.mem_blobs_iff]
    exact mem_chunks_iff_chunkEntry.mpr ⟨entry, found⟩
  obtain ⟨data, held⟩ :=
    Option.isSome_iff_exists.mp (ExtTreeMap.mem_iff_isSome_getElem?.mp indexed)
  have loaded := (represents.fetched id).trans (Contents.getChunk_eq_ok_iff.mpr held)
  have written := (getChunk_eq_ok_iff.mp loaded).2
  have below : data.length ≤ (disk.objects[id]?.map List.length).getD 0 := by
    simp [written, objectBytes]
  have single := OrderedTable.total_eq_add_erase List.length disk.objects id
  refine ⟨data, loaded, ?_, below⟩
  rw [represents.chunkLen_eq found held, UInt64.toNat_ofNat', Nat.mod_eq_of_lt]
  omega

theorem Represents.sum_chunkLen (represents : Represents blake3 disk contents)
    (room : OrderedTable.total List.length disk.objects < 2 ^ 64) :
    ((indexEntries disk.tables).map fun item => item.2.chunkLen.toNat).sum =
        (disk.tables.chunks.keys.map (fetchedLen blake3 disk)).sum ∧
      (disk.tables.chunks.keys.map (fetchedLen blake3 disk)).sum < 2 ^ 64 := by
  have keys : disk.tables.chunks.keys = (indexEntries disk.tables).map Prod.fst := by
    rw [← ExtTreeMap.map_fst_toList_eq_keys, indexEntries, List.map_map]
    rfl
  have each : ∀ item ∈ indexEntries disk.tables,
      item.2.chunkLen.toNat = fetchedLen blake3 disk item.1 := by
    rintro ⟨id, entry⟩ listed
    obtain ⟨data, loaded, recorded, -⟩ :=
      represents.chunkLen_toNat room (mem_indexEntries_iff.mp listed)
    simp only [fetchedLen, loaded, recorded]
  constructor
  · rw [keys, List.map_map]
    exact congrArg List.sum (List.map_congr_left each)
  · have below : (disk.tables.chunks.keys.map (fetchedLen blake3 disk)).sum ≤
        (disk.tables.chunks.keys.map fun id =>
          (disk.objects[id]?.map List.length).getD 0).sum := by
      apply List.sum_le_sum
      intro id listed
      obtain ⟨entry, found⟩ := mem_chunks_iff_chunkEntry.mp (ExtTreeMap.mem_keys.mp listed)
      obtain ⟨data, loaded, -, short⟩ := represents.chunkLen_toNat room found
      simpa only [fetchedLen, loaded] using short
    have all := OrderedTable.sum_le_total List.length disk.objects
      (ExtTreeMap.nodup_keys (t := disk.tables.chunks))
    omega

/-- The figures of a disk that holds the contents. -/
theorem Represents.snapshotFigures (represents : Represents blake3 disk contents)
    (room : disk.tables.snapshots.size < 2 ^ 64) :
    (status disk.tables).snapshotsTotal.toNat = contents.live.size ∧
      (∀ client : String, (status disk.tables).snapshotsByClient[client]?.map UInt64.toNat =
        if (contents.ownedBy client).length = 0 then none
        else some (contents.ownedBy client).length) ∧
      OrderedTable.total UInt64.toNat (status disk.tables).snapshotsByClient =
        (status disk.tables).snapshotsTotal.toNat := by
  have sameSize : contents.live.size = disk.tables.snapshots.size := by
    rw [← ExtTreeMap.length_keys, ← ExtTreeMap.length_keys, represents.keys_eq]
    rfl
  rw [← ExtTreeMap.length_keys] at room
  have counted := counted_countSnapshots (counted_nil disk.tables.snapshotOwner)
    disk.tables.snapshots.keys
  rw [List.nil_append] at counted
  have total : (status disk.tables).snapshotsTotal.toNat = disk.tables.snapshots.keys.length := by
    rw [status, counted.total, UInt64.toNat_ofNat', Nat.mod_eq_of_lt room]
  refine ⟨?_, ?_, ?_⟩
  · rw [total, sameSize, ExtTreeMap.length_keys]
  · intro client
    have few := sharesOf_le disk.tables.snapshotOwner disk.tables.snapshots.keys client
    have clients := counted.clients client
    rw [represents.sharesOf_eq] at clients few
    rw [status, clients]
    split
    next => rfl
    next => rw [Option.map_some, UInt64.toNat_ofNat', Nat.mod_eq_of_lt (by omega)]
  · rw [total]
    exact counted.sums room

theorem Represents.chunkFigures (represents : Represents blake3 disk contents)
    (room : disk.tables.chunks.size < 2 ^ 64)
    (objects : OrderedTable.total List.length disk.objects < 2 ^ 64) :
    (status disk.tables).chunksUnique.toNat = disk.tables.chunks.size ∧
      (status disk.tables).storeBytes.toNat =
        (disk.tables.chunks.keys.map (fetchedLen blake3 disk)).sum ∧
      (status disk.tables).zeroRefChunks.toNat = contents.unreferenced.length := by
  have size : (indexEntries disk.tables).length = disk.tables.chunks.size := by
    rw [indexEntries, List.length_map, ExtTreeMap.length_toList]
  have few : (zeroRefChunks disk.tables).length ≤ (indexEntries disk.tables).length := by
    rw [zeroRefChunks, List.length_map]
    exact List.length_filter_le _ _
  obtain ⟨sum, bound⟩ := represents.sum_chunkLen objects
  simp only [status, countIndex_eq, UInt64.zero_add, UInt64.toNat_ofNat']
  refine ⟨?_, ?_, ?_⟩
  · rw [size, Nat.mod_eq_of_lt room]
  · rw [sum, Nat.mod_eq_of_lt bound]
  · rw [← represents.perm_zeroRefChunks.length_eq, zeroRefChunks, List.length_map,
      Nat.mod_eq_of_lt]
    rw [zeroRefChunks, List.length_map] at few
    omega

theorem diskBytes_lt {storage : Storage} {operations : List Operation}
    (executed : Transition.run (operate storage blake3) .empty operations = some disk) :
    diskBytes disk < 2 ^ 64 := by
  refine Transition.run_invariant (fun disk => diskBytes disk < 2 ^ 64) ?_ ?_ executed
  · simp [diskBytes, Disk.empty, Tables.empty, Crash.refBytes, OrderedTable.total]
  · intro visit visited _
    have ran := Transition.visit_step visited
    unfold operate at ran
    split at ran
    next accepted =>
      rw [← Option.some.inj ran]
      exact storage.addressable _ accepted
    next => cases ran

end Truth

/-- After every sequence of operations, successful or refused, the status says
what the store holds. -/
theorem status_is_ground_truth (storage : Storage) (blake3 : Blake3)
    (operations : List Operation) (disk : Disk)
    (executed : Transition.run (operate storage blake3) .empty operations = some disk) :
    (status disk.tables).Exact blake3 operations disk := by
  have represents := represents_contentsAfter executed
  have room := diskBytes_lt executed
  unfold diskBytes at room
  obtain ⟨snapshots, clients, sum⟩ := represents.snapshotFigures (by omega)
  obtain ⟨chunks, bytes, zeroRef⟩ := represents.chunkFigures (by omega) (by omega)
  obtain ⟨prunes, gcs⟩ := lastEvents_contentsAfter operations
  refine ⟨snapshots, clients, sum, chunks, ?_, bytes, zeroRef, ?_, ?_⟩
  · intro id indexed
    obtain ⟨entry, found⟩ := mem_chunks_iff_chunkEntry.mp indexed
    obtain ⟨data, loaded, -, -⟩ := represents.chunkLen_toNat (by omega) found
    exact ⟨data, loaded⟩
  · rw [status, represents.lastPrune, ← prunes]
    cases (contentsAfter operations).lastPrune <;> simp
  · rw [status, represents.lastGc, ← gcs]
    cases (contentsAfter operations).lastGc <;> simp

/-- Storage that takes as much as 64-bit offsets allow. -/
def largeStorage : Storage where
  accepts disk := decide (diskBytes disk < 2 ^ 64)
  addressable _ accepted := of_decide_eq_true accepted

/-- Two snapshots, of which one is deleted and its ID used again without an
owner; a prune that keeps both, and a gc. -/
def statusOperations : List Operation :=
  [.putChunk ⟨.replicate 32 1⟩ [], .putChunk ⟨.replicate 32 2⟩ [],
    .putSnapshotAs (.fromParts 1 1) [7] [⟨.replicate 32 1⟩, ⟨.replicate 32 1⟩] (some "laptop"),
    .putSnapshotAs (.fromParts 2 2) [8] [⟨.replicate 32 2⟩] (some "laptop"),
    .deleteSnapshot (.fromParts 1 1), .putSnapshotAs (.fromParts 1 1) [9] [] none,
    .prune 5 .defaultGrid .manual, .gc 6 ⟨3600, 0, by decide, by decide⟩]

theorem status_after_reuse :
    ∃ disk, Transition.run (operate largeStorage .onEmpty) .empty statusOperations = some disk ∧
      (status disk.tables).Exact .onEmpty statusOperations disk := by
  have enabled : (Transition.run (operate largeStorage .onEmpty) .empty
      statusOperations).isSome := by decide +kernel
  obtain ⟨disk, executed⟩ := Option.isSome_iff_exists.mp enabled
  exact ⟨disk, executed,
    status_is_ground_truth largeStorage .onEmpty statusOperations disk executed⟩

end Busyncr.Store
