import Busyncr.Store.GcOutcome
import Busyncr.Store.Pruned
import Mathlib.Data.Finset.Dedup

/-!
What the store is for: blobs under their chunk IDs, and snapshots with the
chunks they refer to and the client that shipped them.

`Contents.perform` says so without tables, counts and files: a chunk is
referenced while a live snapshot lists it.  `Operation.run` is the same
operation on the disk.
-/

namespace Busyncr.Store

open Std

/-- An operation that can change the store. -/
inductive Operation where
  | putChunk (id : ChunkId) (data : Bytes)
  | putSnapshotAs (snapshot : Ulid) (blob : Bytes) (refs : List ChunkId) (owner : Option String)
  | deleteSnapshot (snapshot : Ulid)
  | deleteChunk (id : ChunkId)
  | prune (nowMs : Int64) (policy : Retention.RetentionPolicy) (mode : PruneMode)
  | gc (nowMs : Int64) (grace : Duration)

/-- What an operation returns.  The chunks a gc reclaims come in no known
order. -/
inductive Outcome where
  | uploaded (newlyStored : Bool)
  | finished (result : Except StoreError Unit)
  | pruned (outcome : PruneOutcome)
  | collected (reclaimed : Finset ChunkId) (bytesReclaimed : UInt64) (pending : Nat)

/-- The outcome of a transaction on the tables, and the disk after it. -/
def finish (disk : Disk) (objects : ExtTreeMap ChunkId Bytes) :
    Except StoreError Tables → Outcome × Disk
  | .error error => (.finished (.error error), disk)
  | .ok tables => (.finished (.ok ()), ⟨tables, objects⟩)

/-- An operation of the store that nothing interrupts. -/
def Operation.run (blake3 : Blake3) (disk : Disk) : Operation → Outcome × Disk
  | .putChunk id data =>
      (.uploaded (Store.putChunk blake3 disk id data).1, (Store.putChunk blake3 disk id data).2)
  | .putSnapshotAs snapshot blob refs owner =>
      finish disk disk.objects (Store.putSnapshotAs disk.tables snapshot blob refs owner)
  | .deleteSnapshot snapshot =>
      finish disk disk.objects (Store.deleteSnapshot disk.tables snapshot)
  | .deleteChunk id => finish disk (disk.objects.erase id) (Store.deleteChunk disk.tables id)
  | .prune nowMs policy mode =>
      (.pruned (Store.prune disk.tables nowMs policy mode).1,
        { disk with tables := (Store.prune disk.tables nowMs policy mode).2 })
  | .gc nowMs grace =>
      let committed := Store.gc disk.tables nowMs grace
      (.collected committed.outcome.reclaimed.toFinset committed.outcome.bytesReclaimed
          committed.outcome.pending,
        ⟨committed.tables, OrderedTable.eraseAll committed.outcome.reclaimed disk.objects⟩)

/-- A snapshot as it was shipped. -/
structure Shipped where
  blob : Bytes
  owner : Option String
  refs : List ChunkId

/-- The most recent prune. -/
structure PruneEvent where
  atMs : Int64
  mode : PruneMode
deriving DecidableEq

/-- The most recent gc. -/
structure GcEvent where
  atMs : Int64
deriving DecidableEq

/-- What a store holds. -/
structure Contents where
  blobs : ExtTreeMap ChunkId Bytes
  live : ExtTreeMap Ulid Shipped
  /-- When a gc first found a chunk unreferenced. -/
  marks : ExtTreeMap ChunkId Int64
  lastPrune : Option PruneEvent
  lastGc : Option GcEvent

namespace Contents

def empty : Contents := ⟨∅, ∅, ∅, none, none⟩

/-- The references of one live snapshot. -/
def refsOf (contents : Contents) (snapshot : Ulid) : List ChunkId :=
  (contents.live[snapshot]?.map Shipped.refs).getD []

/-- The references of all live snapshots. -/
def references (contents : Contents) : List ChunkId :=
  contents.live.keys.flatMap contents.refsOf

def getChunk (contents : Contents) (id : ChunkId) : Except StoreError Bytes :=
  match contents.blobs[id]? with
  | none => .error (.chunkNotFound id)
  | some data => .ok data

/-- Chunks no live snapshot refers to. -/
def unreferenced (contents : Contents) : List ChunkId :=
  contents.blobs.keys.filter fun id => id ∉ contents.references

/-- Unreferenced, and found so at least the grace period ago. -/
def Expired (contents : Contents) (nowMs : Int64) (grace : Duration) (id : ChunkId) : Prop :=
  id ∈ contents.unreferenced ∧ ∃ markedAt ∈ contents.marks[id]?,
    markedAt.toInt + min (grace.asMillis : Int) (2 ^ 63 - 1) ≤ nowMs.toInt

instance (contents : Contents) (nowMs : Int64) (grace : Duration) (id : ChunkId) :
    Decidable (contents.Expired nowMs grace id) :=
  inferInstanceAs (Decidable (_ ∧ ∃ markedAt ∈ contents.marks[id]?, _))

def expired (contents : Contents) (nowMs : Int64) (grace : Duration) : List ChunkId :=
  contents.blobs.keys.filter fun id => contents.Expired nowMs grace id

/-- The stored bytes under some IDs. -/
def bytesOf (contents : Contents) (ids : List ChunkId) : Nat :=
  (ids.map fun id => (contents.blobs[id]?.map List.length).getD 0).sum

/-- The contents after the expired chunks are gone. -/
def swept (contents : Contents) (nowMs : Int64) (grace : Duration) : Contents :=
  { contents with blobs := OrderedTable.eraseAll (contents.expired nowMs grace) contents.blobs }

/-- Unreferenced chunks are marked, and keep the mark they have; no other
chunk is marked. -/
def marked (contents : Contents) (nowMs : Int64) : ExtTreeMap ChunkId Int64 :=
  contents.blobs.filterMap fun id _ =>
    if id ∈ contents.references then none else some (contents.marks[id]?.getD nowMs)

def perform (contents : Contents) : Operation → Outcome × Contents
  | .putChunk id data =>
      if id ∈ contents.blobs then (.uploaded false, contents)
      else (.uploaded true, { contents with blobs := contents.blobs.insert id data })
  | .putSnapshotAs snapshot blob refs owner =>
      if snapshot ∈ contents.live then
        (.finished (.error (.snapshotExists snapshot)), contents)
      else
        match refs.find? fun id => id ∉ contents.blobs with
        | some chunk => (.finished (.error (.unknownChunkRef snapshot chunk)), contents)
        | none => (.finished (.ok ()),
            { contents with live := contents.live.insert snapshot ⟨blob, owner, refs⟩ })
  | .deleteSnapshot snapshot =>
      if snapshot ∈ contents.live then
        (.finished (.ok ()), { contents with live := contents.live.erase snapshot })
      else (.finished (.error (.snapshotNotFound snapshot)), contents)
  | .deleteChunk id =>
      if id ∉ contents.blobs then (.finished (.error (.chunkNotFound id)), contents)
      else if id ∈ contents.references then
        (.finished (.error (.stillReferenced id
          (UInt64.ofNat (contents.references.count id)))), contents)
      else (.finished (.ok ()), { contents with blobs := contents.blobs.erase id })
  | .prune nowMs policy mode =>
      let plan := prunePlan nowMs policy contents.live.keys
      (.pruned ⟨plan.keep, plan.drop, mode⟩,
        { contents with
          live := OrderedTable.eraseAll plan.drop contents.live
          lastPrune := some ⟨nowMs, mode⟩ })
  | .gc nowMs grace =>
      let swept := contents.swept nowMs grace
      (.collected (contents.expired nowMs grace).toFinset
          (UInt64.ofNat (contents.bytesOf (contents.expired nowMs grace)))
          swept.unreferenced.length,
        { swept with marks := swept.marked nowMs, lastGc := some ⟨nowMs⟩ })

theorem mem_unreferenced_iff {contents : Contents} {id : ChunkId} :
    id ∈ contents.unreferenced ↔ id ∈ contents.blobs ∧ id ∉ contents.references := by
  simp [unreferenced]

theorem mem_expired_iff {contents : Contents} {nowMs : Int64} {grace : Duration}
    {id : ChunkId} :
    id ∈ contents.expired nowMs grace ↔ contents.Expired nowMs grace id := by
  simp only [expired, List.mem_filter, ExtTreeMap.mem_keys, decide_eq_true_eq, and_iff_right_iff_imp]
  exact fun gone => (mem_unreferenced_iff.mp gone.1).1

theorem nodup_unreferenced (contents : Contents) : contents.unreferenced.Nodup :=
  ExtTreeMap.nodup_keys.sublist List.filter_sublist

theorem nodup_expired (contents : Contents) (nowMs : Int64) (grace : Duration) :
    (contents.expired nowMs grace).Nodup :=
  ExtTreeMap.nodup_keys.sublist List.filter_sublist

end Contents

end Busyncr.Store
