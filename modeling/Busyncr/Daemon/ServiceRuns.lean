import Mathlib.Data.Finset.Max
import Busyncr.Daemon.RetentionRuns
import Busyncr.Daemon.Service

/-!
Clients on one daemon: `PutManifest` requests interleaved with each other,
with enrollments and with prunes.

A service run projects onto a run of its store, so what holds of every run
of the store holds of every run of the service.
-/

namespace Busyncr.Daemon

open Std Store Transition

/-- A `PutManifest` request that is being served. -/
inductive Handler where
  | authenticated (fingerprint : Option String) (request : PutManifestRequest)
  | attributed (owner : Option String) (request : PutManifestRequest)
  /-- The snapshot is committed and the post-backup prune has not begun. -/
  | committed
deriving DecidableEq

structure Service where
  auth : Option Registry
  autoPrune : Bool
  store : SharedStore
  handlers : List Handler

/-- A service on a freshly created store. -/
def Service.start (auth : Option Registry) (autoPrune : Bool) : Service :=
  ⟨auth, autoPrune, .empty, []⟩

inductive ServiceEvent where
  | enroll (name fingerprint : String)
  | revoke (name : String)
  /-- A request arrives and is authenticated. -/
  | putManifest (fingerprint : Option String) (request : PutManifestRequest)
  /-- The next step of a request; a post-backup prune reads the clock. -/
  | resume (place : Nat) (nowMs : Int64)
  /-- The daily timer or an operator starts a prune. -/
  | prune (nowMs : Int64) (mode : PruneMode)
  /-- Any step of another call on the store. -/
  | shared (event : Event)
deriving DecidableEq

/-- The step of the store that an event takes, if any. -/
def storeEvent? (service : Service) : ServiceEvent → Option Event
  | .resume place nowMs =>
      match service.handlers[place]? with
      | some (.attributed owner request) =>
          match parsePutManifest request with
          | .ok (snapshot, refs) => some (.putSnapshotAs snapshot request.manifest refs owner)
          | .error _ => none
      | some .committed => some (.prune nowMs .defaultGrid .auto)
      | _ => none
  | .prune nowMs mode => some (.prune nowMs .defaultGrid mode)
  | .shared event => some event
  | .enroll _ _ => none
  | .revoke _ => none
  | .putManifest _ _ => none

/-- The requests being served after an event; `none` if it resumes none. -/
def handlersAfter (service : Service) : ServiceEvent → Option (List Handler)
  | .putManifest fingerprint request =>
      match authenticate service.auth fingerprint with
      | .ok _ => some (service.handlers ++ [.authenticated fingerprint request])
      | .error _ => some service.handlers
  | .resume place _ =>
      match service.handlers[place]? with
      | none => none
      | some (.authenticated fingerprint request) =>
          some (service.handlers.set place
            (.attributed (ownerOf service.auth fingerprint) request))
      | some (.attributed owner request) =>
          match storeManifest service.store.disk.tables owner request with
          | .error _ => some (service.handlers.eraseIdx place)
          | .ok _ =>
              if service.autoPrune then some (service.handlers.set place .committed)
              else some (service.handlers.eraseIdx place)
      | some .committed => some (service.handlers.eraseIdx place)
  | _ => some service.handlers

def authAfter (auth : Option Registry) : ServiceEvent → Option Registry
  | .enroll name fingerprint => auth.map fun registry => enrollClient registry name fingerprint
  | .revoke name => auth.map fun registry => revoke registry name
  | _ => auth

/-- One step of the service. -/
def serviceStep (blake3 : Blake3) (service : Service) (event : ServiceEvent) : Option Service :=
  match handlersAfter service event with
  | none => none
  | some handlers =>
      match storeEvent? service event with
      | none => some { service with auth := authAfter service.auth event, handlers := handlers }
      | some storeEvent =>
          match step blake3 service.store storeEvent with
          | none => none
          | some store =>
              some { service with
                auth := authAfter service.auth event, store := store, handlers := handlers }

/-- The store of a service takes the steps of a shared store. -/
def storeProjection (blake3 : Blake3) : Projection (serviceStep blake3) (step blake3) where
  view := Service.store
  label := storeEvent?
  matched {service event next} stepped := by
    unfold serviceStep at stepped
    split at stepped
    next blocked => cases stepped
    next handlers resumed =>
      cases seen : storeEvent? service event with
      | none =>
          simp only [seen] at stepped
          cases stepped
          rfl
      | some storeEvent =>
          simp only [seen] at stepped
          cases taken : step blake3 service.store storeEvent with
          | none => simp [taken] at stepped
          | some store =>
              simp only [taken] at stepped
              cases stepped
              exact taken

/-- Snapshots are deleted by prunes under the default grid only. -/
def ServiceEvent.PrunesOnly : ServiceEvent → Prop
  | .shared event => Daemon.PrunesOnly .defaultGrid event
  | _ => True

/-- The steps a run takes on the store. -/
def storeHistory (blake3 : Blake3) (service : Service) (events : List ServiceEvent) : History :=
  (visits (serviceStep blake3) service events).filterMap (storeProjection blake3).visit?

/-- The client and the snapshot of the `PutManifest` a step commits. -/
def committedManifest? (visit : Visit Service ServiceEvent) : Option (String × Ulid) :=
  match visit.event with
  | .resume place _ =>
      match visit.before.handlers[place]? with
      | some (.attributed (some client) request) =>
          match parsePutManifest request with
          | .ok (snapshot, refs) =>
              match putSnapshotAs visit.before.store.disk.tables snapshot request.manifest refs
                  (some client) with
              | .ok _ => some (client, snapshot)
              | .error _ => none
          | .error _ => none
      | _ => none
  | _ => none

/-- Some `PutManifest` of the client committed the snapshot. -/
def PutManifestStored (history : List (Visit Service ServiceEvent)) (client : String)
    (snapshot : Ulid) : Prop :=
  ∃ visit ∈ history, committedManifest? visit = some (client, snapshot)

instance (history : List (Visit Service ServiceEvent)) (client : String) (snapshot : Ulid) :
    Decidable (PutManifestStored history client snapshot) :=
  inferInstanceAs (Decidable (∃ visit ∈ history, _))

theorem committedManifest_eq_some {visit : Visit Service ServiceEvent} {client : String}
    {snapshot : Ulid} (committed : committedManifest? visit = some (client, snapshot)) :
    ∃ (request : PutManifestRequest) (refs : List ChunkId) (tables : Tables),
      storeEvent? visit.before visit.event =
        some (.putSnapshotAs snapshot request.manifest refs (some client)) ∧
      putSnapshotAs visit.before.store.disk.tables snapshot request.manifest refs (some client) =
        .ok tables := by
  unfold committedManifest? at committed
  split at committed
  next place nowMs isResume =>
    split at committed
    next owner request found =>
      split at committed
      next parsedSnapshot refs parsed =>
        split at committed
        next tables accepted =>
          cases committed
          refine ⟨request, refs, tables, ?_, accepted⟩
          simp [storeEvent?, isResume, found, parsed]
        next error refused => cases committed
      next status malformed => cases committed
    next other => cases committed
  next other => cases committed

theorem prunesOnly_storeEvent {service : Service} {event : ServiceEvent} {storeEvent : Event}
    (allowed : event.PrunesOnly) (seen : storeEvent? service event = some storeEvent) :
    PrunesOnly .defaultGrid storeEvent := by
  cases event with
  | resume place nowMs =>
      simp only [storeEvent?] at seen
      split at seen
      next owner request found =>
        split at seen
        next snapshot refs parsed =>
          cases seen
          trivial
        next status refused => cases seen
      next found =>
        cases seen
        exact rfl
      next other => cases seen
  | prune nowMs mode =>
      cases seen
      exact rfl
  | shared event =>
      cases seen
      exact allowed
  | enroll name fingerprint => cases seen
  | revoke name => cases seen
  | putManifest fingerprint request => cases seen

theorem prunesOnly_events {blake3 : Blake3} {service : Service} {events : List ServiceEvent}
    (allowed : ∀ event ∈ events, event.PrunesOnly) :
    ∀ event ∈ (storeProjection blake3).events service events, PrunesOnly .defaultGrid event := by
  intro event membership
  obtain ⟨visit, visited, seen⟩ := List.mem_filterMap.mp membership
  exact prunesOnly_storeEvent (allowed visit.event (visit_event_mem visited)) seen

/-- What `PutManifest` commits is stored as the client's. -/
theorem PutManifestStored.shipped {blake3 : Blake3} {service : Service}
    {events : List ServiceEvent} {client : String} {snapshot : Ulid}
    (stored : PutManifestStored (visits (serviceStep blake3) service events) client snapshot) :
    Shipped (storeHistory blake3 service events) client snapshot := by
  obtain ⟨visit, visited, committed⟩ := stored
  obtain ⟨request, refs, tables, seen, accepted⟩ := committedManifest_eq_some committed
  have matched := (storeProjection blake3).matched (visit_step visited)
  simp only [storeProjection, seen] at matched
  have changed : visit.after.store.disk.tables = tables := by
    have committed := tables_step matched
    simp only [transaction?] at committed
    rw [committed]
    exact Transaction.commit_of_ok accepted
  obtain ⟨fresh, chunks, _, isNext⟩ := putSnapshotAs_ok accepted
  let seenVisit : Visit SharedStore Event :=
    ⟨visit.before.store, .putSnapshotAs snapshot request.manifest refs (some client),
      visit.after.store⟩
  refine ⟨seenVisit, List.mem_filterMap.mpr ⟨visit, visited, ?_⟩, fresh, ?_, ?_⟩
  · simp only [Projection.visit?, storeProjection, seen, Option.map_some, seenVisit]
  · simp only [seenVisit, changed, isNext]
    exact ExtTreeMap.mem_insert_self
  · simp only [seenVisit, changed, isNext]
    exact ExtTreeMap.getElem?_insert_self

/-- Of the snapshots stored in one cell, one is the greatest. -/
theorem exists_greatest_stored {history : History} {snapshot : Ulid} (tier : Retention.Tier)
    (stored : Stored history snapshot) :
    ∃ greatest, Stored history greatest ∧ snapshot ≤ greatest ∧
      cellOf tier greatest = cellOf tier snapshot ∧
      ∀ other, Stored history other → cellOf tier other = cellOf tier greatest →
        other ≤ greatest := by
  let candidates := ((everLive history).filter fun other =>
    decide (Stored history other ∧ cellOf tier other = cellOf tier snapshot)).toFinset
  have mem_candidates : ∀ other, other ∈ candidates ↔
      Stored history other ∧ cellOf tier other = cellOf tier snapshot := by
    intro other
    simp only [candidates, List.mem_toFinset, List.mem_filter, decide_eq_true_eq]
    exact ⟨fun membership => membership.2, fun isCandidate =>
      ⟨isCandidate.1.mem_everLive, isCandidate⟩⟩
  obtain ⟨greatest, isCandidate, isGreatest⟩ :=
    candidates.exists_max_image (fun other => other.value.toNat)
      ⟨snapshot, (mem_candidates snapshot).mpr ⟨stored, rfl⟩⟩
  obtain ⟨greatestStored, sameCell⟩ := (mem_candidates greatest).mp isCandidate
  refine ⟨greatest, greatestStored, ?_, sameCell, fun other otherStored otherCell => ?_⟩
  · exact isGreatest snapshot ((mem_candidates snapshot).mpr ⟨stored, rfl⟩)
  · exact isGreatest other ((mem_candidates other).mpr ⟨otherStored, otherCell.trans sameCell⟩)

section Cells

variable {policy : Retention.RetentionPolicy} {history : History} {store : SharedStore}
  {snapshot : Ulid} {bound : Nat} {tier : Retention.Tier}

/-- The cell of a stored snapshot keeps one at least as new, while no plan
places these beyond the tier. -/
theorem Retained.exists_live_in_cell (nested : policy.Nested)
    (retained : Retained policy history store) (width : policy.tiers[bound]? = some tier)
    (stored : Stored history snapshot)
    (planned : ∀ other, Stored history other → cellOf tier other = cellOf tier snapshot →
      snapshot ≤ other → ∀ visit ∈ history, ∀ nowMs snapshots,
        plannedAt visit = some (nowMs, policy, snapshots) → other ∈ snapshots →
          ∀ index, tierIndex policy nowMs other = some index → index ≤ bound) :
    ∃ live ∈ store.disk.tables.snapshots,
      snapshot ≤ live ∧ cellOf tier live = cellOf tier snapshot := by
  obtain ⟨greatest, greatestStored, notLess, sameCell, isGreatest⟩ :=
    exists_greatest_stored tier stored
  refine ⟨greatest, ?_, notLess, sameCell⟩
  exact retained.live_of_greatest nested width greatestStored isGreatest
    (planned greatest greatestStored sameCell notLess)

/-- The greatest snapshot of a cell stays its client's, while no plan places
it beyond the tier. -/
theorem OwnersKept.stays_of_greatest (nested : policy.Nested)
    (owners : OwnersKept policy history store) (width : policy.tiers[bound]? = some tier)
    {client : String} (shipped : Shipped history client snapshot)
    (isGreatest : ∀ other, Stored history other → cellOf tier other = cellOf tier snapshot →
      other ≤ snapshot)
    (planned : ∀ visit ∈ history, ∀ nowMs snapshots,
      plannedAt visit = some (nowMs, policy, snapshots) → snapshot ∈ snapshots →
        ∀ index, tierIndex policy nowMs snapshot = some index → index ≤ bound) :
    snapshot ∈ store.disk.tables.snapshots ∧
      store.disk.tables.snapshotOwner[snapshot]? = some client := by
  rcases owners client snapshot shipped with kept | superseded
  · exact kept
  · obtain ⟨greater, greaterStored, less, sameCell⟩ :=
      superseded.exists_greater nested width planned
    have notGreater := isGreatest greater greaterStored sameCell
    rw [Ulid.le_iff] at notGreater
    rw [Ulid.lt_iff] at less
    omega

end Cells

/-- Pruning works on the snapshots of all clients together: where a client
stored a snapshot, the 16-day cell keeps one at least as new, whoever stored
it; the client's own snapshot stays, and stays the client's, while no client
has stored a greater one in that cell.  The same holds of the cells of a finer
tier, as long as no plan places these snapshots in a coarser one. -/
theorem newest_of_cell_stays_with_its_client (blake3 : Blake3) {auth : Option Registry}
    {autoPrune : Bool} {events : List ServiceEvent} {final : Service}
    (executed : run (serviceStep blake3) (.start auth autoPrune) events = some final)
    (allowed : ∀ event ∈ events, event.PrunesOnly) {client : String} {snapshot : Ulid}
    (stored : PutManifestStored (visits (serviceStep blake3) (.start auth autoPrune) events)
      client snapshot)
    {tier : Retention.Tier}
    (width : Retention.RetentionPolicy.defaultGrid.tiers[3]? = some tier) :
    (∃ live ∈ final.store.disk.tables.snapshots,
      snapshot ≤ live ∧ cellOf tier live = cellOf tier snapshot) ∧
    ((∀ other, Stored (storeHistory blake3 (.start auth autoPrune) events) other →
      cellOf tier other = cellOf tier snapshot → other ≤ snapshot) →
      snapshot ∈ final.store.disk.tables.snapshots ∧
        final.store.disk.tables.snapshotOwner[snapshot]? = some client) ∧
    ∀ index finer, Retention.RetentionPolicy.defaultGrid.tiers[index]? = some finer →
      ((∀ other, Stored (storeHistory blake3 (.start auth autoPrune) events) other →
        cellOf finer other = cellOf finer snapshot → snapshot ≤ other →
          PlannedUpTo (storeHistory blake3 (.start auth autoPrune) events) other index) →
        ∃ live ∈ final.store.disk.tables.snapshots,
          snapshot ≤ live ∧ cellOf finer live = cellOf finer snapshot) ∧
      ((∀ other, Stored (storeHistory blake3 (.start auth autoPrune) events) other →
        cellOf finer other = cellOf finer snapshot → other ≤ snapshot) →
        PlannedUpTo (storeHistory blake3 (.start auth autoPrune) events) snapshot index →
          snapshot ∈ final.store.disk.tables.snapshots ∧
            final.store.disk.tables.snapshotOwner[snapshot]? = some client) := by
  have projected := (storeProjection blake3).run_events executed
  have sameHistory := (storeProjection blake3).visits_events executed
  have retained := retained_of_run projected (prunesOnly_events allowed)
  have owners := ownersKept_of_run projected (prunesOnly_events allowed)
  have isHistory : historyOf blake3 ((storeProjection blake3).events (.start auth autoPrune) events) =
      storeHistory blake3 (.start auth autoPrune) events := sameHistory
  rw [isHistory] at retained owners
  have shipped := stored.shipped
  have lastTier : ∀ visit ∈ storeHistory blake3 (.start auth autoPrune) events,
      ∀ (other : Ulid) nowMs snapshots,
        plannedAt visit = some (nowMs, .defaultGrid, snapshots) → other ∈ snapshots →
          ∀ index, tierIndex .defaultGrid nowMs other = some index → index ≤ 3 :=
    fun _ _ _ _ _ _ _ index placed => tierIndex_le_last placed
  refine ⟨?_, ?_, fun index finer finerWidth => ⟨?_, ?_⟩⟩
  · exact retained.exists_live_in_cell Retention.defaultGrid_nested width shipped.stored
      fun other _ _ _ visit visited => lastTier visit visited other
  · intro isGreatest
    exact owners.stays_of_greatest Retention.defaultGrid_nested width shipped isGreatest
      fun visit visited => lastTier visit visited snapshot
  · intro planned
    refine retained.exists_live_in_cell Retention.defaultGrid_nested finerWidth shipped.stored ?_
    intro other otherStored sameCell notLess visit visited nowMs snapshots isPlan listed placedIn
      placed
    exact planned other otherStored sameCell notLess visit visited _ isPlan listed placedIn placed
  · intro isGreatest planned
    refine owners.stays_of_greatest Retention.defaultGrid_nested finerWidth shipped isGreatest ?_
    intro visit visited nowMs snapshots isPlan listed placedIn placed
    exact planned visit visited _ isPlan listed placedIn placed

/-- Two clients back up within one three-hour cell, each followed by its
post-backup prune. -/
def twoClients (first second : Ulid) : List ServiceEvent :=
  [.enroll "alice" "fa", .enroll "bob" "fb",
    .putManifest (some "fa") ⟨[], first.toBytes, []⟩, .resume 0 1, .resume 0 1, .resume 0 1,
    .shared (.advance 0), .shared (.advance 0),
    .putManifest (some "fb") ⟨[], second.toBytes, []⟩, .resume 0 2, .resume 0 2, .resume 0 2,
    .shared (.advance 0), .shared (.advance 0), .shared (.advance 0)]

theorem second_client_keeps_its_snapshot :
    ∃ final,
      run (serviceStep .onEmpty) (.start (some ∅) true)
        (twoClients (.fromParts 1 0) (.fromParts 2 0)) = some final ∧
      .fromParts 2 0 ∈ final.store.disk.tables.snapshots ∧
        final.store.disk.tables.snapshotOwner[Ulid.fromParts 2 0]? = some "bob" := by
  have enabled : (run (serviceStep .onEmpty) (.start (some ∅) true)
      (twoClients (.fromParts 1 0) (.fromParts 2 0))).isSome := by decide +kernel
  have stored : PutManifestStored (visits (serviceStep .onEmpty) (.start (some ∅) true)
      (twoClients (.fromParts 1 0) (.fromParts 2 0))) "bob" (.fromParts 2 0) := by
    decide +kernel
  have bounded : ∀ candidate ∈ everLive (storeHistory .onEmpty (.start (some ∅) true)
      (twoClients (.fromParts 1 0) (.fromParts 2 0))), candidate ≤ .fromParts 2 0 := by
    decide +kernel
  obtain ⟨final, executed⟩ := Option.isSome_iff_exists.mp enabled
  have allowed : ∀ event ∈ twoClients (.fromParts 1 0) (.fromParts 2 0),
      event.PrunesOnly := by
    simp [twoClients, ServiceEvent.PrunesOnly, PrunesOnly]
  refine ⟨final, executed, ?_⟩
  refine (newest_of_cell_stays_with_its_client .onEmpty executed allowed stored rfl).2.1 ?_
  exact fun other isStored _ => bounded other isStored.mem_everLive

theorem first_client_loses_its_only_snapshot :
    ∃ final,
      run (serviceStep .onEmpty) (.start (some ∅) true)
        (twoClients (.fromParts 1 0) (.fromParts 2 0)) = some final ∧
      final.handlers = [] ∧ final.store.calls = [] ∧
      PutManifestStored (visits (serviceStep .onEmpty) (.start (some ∅) true)
        (twoClients (.fromParts 1 0) (.fromParts 2 0))) "alice" (.fromParts 1 0) ∧
      ∀ entry ∈ final.store.disk.tables.snapshotOwner.toList, entry.2 ≠ "alice" := by
  have checked : ∃ final,
      run (serviceStep .onEmpty) (.start (some ∅) true)
        (twoClients (.fromParts 1 0) (.fromParts 2 0)) = some final ∧
      final.handlers = [] ∧ final.store.calls = [] ∧
      ∀ entry ∈ final.store.disk.tables.snapshotOwner.toList, entry.2 ≠ "alice" :=
    exists_final_of_any (by decide +kernel)
  have stored : PutManifestStored (visits (serviceStep .onEmpty) (.start (some ∅) true)
      (twoClients (.fromParts 1 0) (.fromParts 2 0))) "alice" (.fromParts 1 0) := by
    decide +kernel
  obtain ⟨final, executed, served, quiet, lost⟩ := checked
  exact ⟨final, executed, served, quiet, stored, lost⟩

end Busyncr.Daemon
