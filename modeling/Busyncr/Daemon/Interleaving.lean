import Busyncr.Lib.Transition
import Busyncr.Store.Prune
import Busyncr.Store.Refcount

/-!
The store shared by concurrent calls.

Every write transaction is one atomic step.  Two kinds of call have more
steps than one and stay in flight between them: a prune, which lists, plans
and then deletes snapshot after snapshot, and a gc or `delete_chunk` whose
index commit is done and whose object files are still to be unlinked.  The
events of a run interleave the steps of any number of calls.
-/

namespace Busyncr.Daemon

open Std Store

/-- What a call in flight has still to do. -/
inductive InFlight where
  /-- Object files to unlink after the index commit of gc or `delete_chunk`. -/
  | unlinking (ids : List ChunkId)
  /-- A prune that has listed the snapshots and not planned yet. -/
  | listed (nowMs : Int64) (policy : Retention.RetentionPolicy) (mode : PruneMode)
      (snapshots : List Ulid)
  /-- A prune with snapshots left to delete. -/
  | dropping (nowMs : Int64) (mode : PruneMode) (drop : List Ulid)
deriving DecidableEq

/-- The store and the calls in flight on it. -/
structure SharedStore where
  disk : Disk
  calls : List InFlight

/-- A freshly created store without calls. -/
def SharedStore.empty : SharedStore := ⟨.empty, []⟩

/-- One step of some call. -/
inductive Event where
  | putChunk (id : ChunkId) (data : Bytes)
  | putSnapshotAs (snapshot : Ulid) (blob : Bytes) (refs : List ChunkId) (owner : Option String)
  | deleteSnapshot (snapshot : Ulid)
  | deleteChunk (id : ChunkId)
  | gc (nowMs : Int64) (grace : Duration)
  /-- A prune begins: it lists the snapshots. -/
  | prune (nowMs : Int64) (policy : Retention.RetentionPolicy) (mode : PruneMode)
  /-- The next step of the prune at this place among the calls. -/
  | advance (call : Nat)
  /-- One `fs::remove_file` of the call at this place; the hash-map order of
  the reclaimed chunks is not known, so any of them may come next. -/
  | unlink (call : Nat) (id : ChunkId)
  /-- The call at this place ends with an I/O error. -/
  | abort (call : Nat)
deriving DecidableEq

/-- Commit a transaction that touches no object file. -/
def SharedStore.commit (store : SharedStore) (transaction : Transaction) : SharedStore :=
  { store with disk.tables := transaction.commit store.disk.tables }

/-- Put a call in flight for the files to unlink, if there are any. -/
def SharedStore.unlinkLater (store : SharedStore) (ids : List ChunkId) : SharedStore :=
  if ids = [] then store else { store with calls := store.calls ++ [.unlinking ids] }

/-- Replace the call at a place by what it has left, if anything. -/
def replaceCall (calls : List InFlight) (place : Nat) : Option InFlight → List InFlight
  | some call => calls.set place call
  | none => calls.eraseIdx place

/-- What is left of an unlinking call after one file. -/
def unlinkingRest (ids : List ChunkId) : Option InFlight :=
  if ids = [] then none else some (.unlinking ids)

/-- The transaction an event commits in a state, if it runs one. -/
def transaction? (store : SharedStore) : Event → Option Transaction
  | .putChunk id data => some (.putChunk id data)
  | .putSnapshotAs snapshot blob refs owner => some (.putSnapshotAs snapshot blob refs owner)
  | .deleteSnapshot snapshot => some (.deleteSnapshot snapshot)
  | .deleteChunk id => some (.deleteChunk id)
  | .gc nowMs grace => some (.gc nowMs grace)
  | .advance place =>
      match store.calls[place]? with
      | some (.dropping _ _ (snapshot :: _)) => some (.deleteSnapshot snapshot)
      | some (.dropping nowMs mode []) => some (.recordPrune nowMs mode)
      | _ => none
  | .prune _ _ _ => none
  | .unlink _ _ => none
  | .abort _ => none

/-- One step of the shared store; `none` when no call at that place can take it. -/
def step (blake3 : Blake3) (store : SharedStore) : Event → Option SharedStore
  | .putChunk id data => some { store with disk := (putChunk blake3 store.disk id data).2 }
  | .putSnapshotAs snapshot blob refs owner =>
      some (store.commit (.putSnapshotAs snapshot blob refs owner))
  | .deleteSnapshot snapshot => some (store.commit (.deleteSnapshot snapshot))
  | .deleteChunk id =>
      match Store.deleteChunk store.disk.tables id with
      | .error _ => some store
      | .ok tables => some ({ store with disk.tables := tables }.unlinkLater [id])
  | .gc nowMs grace =>
      let committed := Store.gc store.disk.tables nowMs grace
      some ({ store with disk.tables := committed.tables }.unlinkLater
        (committed.reclaimed.map Prod.fst))
  | .prune nowMs policy mode =>
      some { store with
        calls := store.calls ++ [.listed nowMs policy mode (listSnapshots store.disk.tables)] }
  | .advance place =>
      match store.calls[place]? with
      | some (.listed nowMs policy mode snapshots) =>
          some { store with
            calls := replaceCall store.calls place
              (some (.dropping nowMs mode (prunePlan nowMs policy snapshots).drop)) }
      | some (.dropping nowMs mode (snapshot :: rest)) =>
          some { store.commit (.deleteSnapshot snapshot) with
            calls := replaceCall store.calls place (some (.dropping nowMs mode rest)) }
      | some (.dropping nowMs mode []) =>
          some { store.commit (.recordPrune nowMs mode) with
            calls := replaceCall store.calls place none }
      | some (.unlinking _) => none
      | none => none
  | .unlink place id =>
      match store.calls[place]? with
      | some (.unlinking ids) =>
          if id ∈ ids then
            some
              { disk := { store.disk with objects := store.disk.objects.erase id }
                calls := replaceCall store.calls place (unlinkingRest (ids.erase id)) }
          else none
      | _ => none
  | .abort place =>
      if place < store.calls.length then
        some { store with calls := replaceCall store.calls place none }
      else none

@[simp]
theorem disk_unlinkLater (store : SharedStore) (ids : List ChunkId) :
    (store.unlinkLater ids).disk = store.disk := by
  unfold SharedStore.unlinkLater
  split <;> rfl

/-- Everything a step can do. -/
inductive StoreStepped (blake3 : Blake3) (store : SharedStore) : Event → SharedStore → Prop where
  | uploaded (id : ChunkId) (data : Bytes) :
      StoreStepped blake3 store (.putChunk id data)
        { store with disk := (putChunk blake3 store.disk id data).2 }
  | shipped (snapshot : Ulid) (blob : Bytes) (refs : List ChunkId) (owner : Option String) :
      StoreStepped blake3 store (.putSnapshotAs snapshot blob refs owner)
        (store.commit (.putSnapshotAs snapshot blob refs owner))
  | deleted (snapshot : Ulid) :
      StoreStepped blake3 store (.deleteSnapshot snapshot) (store.commit (.deleteSnapshot snapshot))
  | refused {id : ChunkId} {error : StoreError}
      (outcome : Store.deleteChunk store.disk.tables id = .error error) :
      StoreStepped blake3 store (.deleteChunk id) store
  | removed {id : ChunkId} {tables : Tables}
      (outcome : Store.deleteChunk store.disk.tables id = .ok tables) :
      StoreStepped blake3 store (.deleteChunk id)
        ({ store with disk.tables := tables }.unlinkLater [id])
  | swept (nowMs : Int64) (grace : Duration) :
      StoreStepped blake3 store (.gc nowMs grace)
        ({ store with disk.tables := (Store.gc store.disk.tables nowMs grace).tables }.unlinkLater
          ((Store.gc store.disk.tables nowMs grace).reclaimed.map Prod.fst))
  | begun (nowMs : Int64) (policy : Retention.RetentionPolicy) (mode : PruneMode) :
      StoreStepped blake3 store (.prune nowMs policy mode) { store with
        calls := store.calls ++ [.listed nowMs policy mode (listSnapshots store.disk.tables)] }
  | planned {place : Nat} {nowMs : Int64} {policy : Retention.RetentionPolicy} {mode : PruneMode}
      {snapshots : List Ulid}
      (found : store.calls[place]? = some (.listed nowMs policy mode snapshots)) :
      StoreStepped blake3 store (.advance place) { store with
        calls := replaceCall store.calls place
          (some (.dropping nowMs mode (prunePlan nowMs policy snapshots).drop)) }
  | dropped {place : Nat} {nowMs : Int64} {mode : PruneMode} {snapshot : Ulid} {rest : List Ulid}
      (found : store.calls[place]? = some (.dropping nowMs mode (snapshot :: rest))) :
      StoreStepped blake3 store (.advance place) { store.commit (.deleteSnapshot snapshot) with
        calls := replaceCall store.calls place (some (.dropping nowMs mode rest)) }
  | recorded {place : Nat} {nowMs : Int64} {mode : PruneMode}
      (found : store.calls[place]? = some (.dropping nowMs mode [])) :
      StoreStepped blake3 store (.advance place) { store.commit (.recordPrune nowMs mode) with
        calls := replaceCall store.calls place none }
  | unlinked {place : Nat} {ids : List ChunkId} {id : ChunkId}
      (found : store.calls[place]? = some (.unlinking ids)) (named : id ∈ ids) :
      StoreStepped blake3 store (.unlink place id)
        { disk := { store.disk with objects := store.disk.objects.erase id }
          calls := replaceCall store.calls place (unlinkingRest (ids.erase id)) }
  | aborted {place : Nat} {call : InFlight} (found : store.calls[place]? = some call) :
      StoreStepped blake3 store (.abort place)
        { store with calls := replaceCall store.calls place none }

theorem storeStepped_of_step {blake3 : Blake3} {store next : SharedStore} {event : Event}
    (stepped : step blake3 store event = some next) : StoreStepped blake3 store event next := by
  cases event with
  | putChunk id data =>
      cases stepped
      exact .uploaded id data
  | putSnapshotAs snapshot blob refs owner =>
      cases stepped
      exact .shipped snapshot blob refs owner
  | deleteSnapshot snapshot =>
      cases stepped
      exact .deleted snapshot
  | deleteChunk id =>
      simp only [step] at stepped
      split at stepped
      next outcome =>
        cases stepped
        exact .refused outcome
      next outcome =>
        cases stepped
        exact .removed outcome
  | gc nowMs grace =>
      cases stepped
      exact .swept nowMs grace
  | prune nowMs policy mode =>
      cases stepped
      exact .begun nowMs policy mode
  | advance place =>
      simp only [step] at stepped
      split at stepped
      next found =>
        cases stepped
        exact .planned found
      next found =>
        cases stepped
        exact .dropped found
      next found =>
        cases stepped
        exact .recorded found
      next => cases stepped
      next => cases stepped
  | unlink place id =>
      simp only [step] at stepped
      split at stepped
      next found =>
        split at stepped
        next named =>
          cases stepped
          exact .unlinked found named
        next => cases stepped
      next => cases stepped
  | abort place =>
      simp only [step] at stepped
      split at stepped
      next inFlight =>
        cases stepped
        exact .aborted (List.getElem?_eq_getElem inFlight)
      next => cases stepped

/-- The tables after a step are those its transaction commits. -/
theorem tables_step {blake3 : Blake3} {store next : SharedStore} {event : Event}
    (stepped : step blake3 store event = some next) :
    next.disk.tables =
      match transaction? store event with
      | some transaction => transaction.commit store.disk.tables
      | none => store.disk.tables := by
  cases storeStepped_of_step stepped with
  | uploaded id data =>
      simp only [transaction?, putChunk, Transaction.commit, Transaction.result]
      split <;> rfl
  | shipped => rfl
  | deleted => rfl
  | refused outcome => simp [transaction?, Transaction.commit, Transaction.result, outcome]
  | removed outcome => simp [transaction?, Transaction.commit, Transaction.result, outcome]
  | swept => simp [transaction?, Transaction.commit, Transaction.result]
  | begun => rfl
  | planned found => simp [transaction?, found]
  | dropped found => simp [transaction?, found, SharedStore.commit]
  | recorded found => simp [transaction?, found, SharedStore.commit]
  | unlinked => rfl
  | aborted => rfl

theorem event_of_gc {store : SharedStore} {event : Event} {nowMs : Int64} {grace : Duration}
    (ran : transaction? store event = some (.gc nowMs grace)) : event = .gc nowMs grace := by
  cases event with
  | gc time period =>
      cases ran
      rfl
  | advance place =>
      simp only [transaction?] at ran
      split at ran <;> cases ran
  | _ => cases ran

theorem event_of_deleteChunk {store : SharedStore} {event : Event} {id : ChunkId}
    (ran : transaction? store event = some (.deleteChunk id)) : event = .deleteChunk id := by
  cases event with
  | deleteChunk chunk =>
      cases ran
      rfl
  | advance place =>
      simp only [transaction?] at ran
      split at ran <;> cases ran
  | _ => cases ran

/-- A property of the tables that every transaction of a run keeps holds
where the run ends. -/
theorem tables_invariant {blake3 : Blake3} {start final : SharedStore} {events : List Event}
    (Invariant : Tables → Prop) (initial : Invariant start.disk.tables)
    (preserved : ∀ visit ∈ Transition.visits (step blake3) start events,
      ∀ transaction, transaction? visit.before visit.event = some transaction →
        transaction.commit visit.before.disk.tables = visit.after.disk.tables →
          Invariant visit.before.disk.tables → Invariant visit.after.disk.tables)
    (executed : Transition.run (step blake3) start events = some final) :
    Invariant final.disk.tables := by
  refine Transition.run_invariant (fun store => Invariant store.disk.tables) initial
    (fun visit visited held => ?_) executed
  have changed := tables_step (Transition.visit_step visited)
  cases ran : transaction? visit.before visit.event with
  | none =>
      simp only [ran] at changed
      rwa [changed]
  | some transaction =>
      simp only [ran] at changed
      exact preserved visit visited transaction ran changed.symm held

theorem mem_replaceCall {calls : List InFlight} {place : Nat} {rest : Option InFlight}
    {call : InFlight} (membership : call ∈ replaceCall calls place rest) :
    call ∈ calls ∨ rest = some call := by
  cases rest with
  | none => exact .inl (List.mem_of_mem_eraseIdx membership)
  | some left =>
      rcases List.mem_or_eq_of_mem_set membership with before | same
      · exact .inl before
      · exact .inr (by rw [same])

theorem mem_calls_unlinkLater {store : SharedStore} {ids : List ChunkId} {call : InFlight}
    (membership : call ∈ (store.unlinkLater ids).calls) :
    call ∈ store.calls ∨ call = .unlinking ids := by
  unfold SharedStore.unlinkLater at membership
  split at membership
  next nothing => exact .inl membership
  next something => simpa using membership

/-- The prune calls in flight after a step were in flight before, or are what
this step made of one. -/
inductive PruneSuccessor (store : SharedStore) : Event → InFlight → Prop where
  | begun (nowMs : Int64) (policy : Retention.RetentionPolicy) (mode : PruneMode) :
      PruneSuccessor store (.prune nowMs policy mode)
        (.listed nowMs policy mode (listSnapshots store.disk.tables))
  | planned {place : Nat} {nowMs : Int64} {policy : Retention.RetentionPolicy} {mode : PruneMode}
      {snapshots : List Ulid}
      (found : store.calls[place]? = some (.listed nowMs policy mode snapshots)) :
      PruneSuccessor store (.advance place)
        (.dropping nowMs mode (prunePlan nowMs policy snapshots).drop)
  | dropped {place : Nat} {nowMs : Int64} {mode : PruneMode} {snapshot : Ulid} {rest : List Ulid}
      (found : store.calls[place]? = some (.dropping nowMs mode (snapshot :: rest))) :
      PruneSuccessor store (.advance place) (.dropping nowMs mode rest)

theorem mem_calls_step {blake3 : Blake3} {store next : SharedStore} {event : Event}
    {call : InFlight} (stepped : step blake3 store event = some next)
    (membership : call ∈ next.calls) :
    call ∈ store.calls ∨ (∃ ids, call = .unlinking ids) ∨ PruneSuccessor store event call := by
  cases storeStepped_of_step stepped with
  | uploaded => exact .inl membership
  | shipped => exact .inl membership
  | deleted => exact .inl membership
  | refused => exact .inl membership
  | removed =>
      rcases mem_calls_unlinkLater membership with before | unlinking
      · exact .inl before
      · exact .inr (.inl ⟨_, unlinking⟩)
  | swept =>
      rcases mem_calls_unlinkLater membership with before | unlinking
      · exact .inl before
      · exact .inr (.inl ⟨_, unlinking⟩)
  | begun nowMs policy mode =>
      rcases List.mem_append.mp membership with before | added
      · exact .inl before
      · rw [List.mem_singleton.mp added]
        exact .inr (.inr (.begun nowMs policy mode))
  | planned found =>
      dsimp only at membership
      rcases mem_replaceCall membership with before | same
      · exact .inl before
      · cases same
        exact .inr (.inr (.planned found))
  | dropped found =>
      dsimp only at membership
      rcases mem_replaceCall membership with before | same
      · exact .inl before
      · cases same
        exact .inr (.inr (.dropped found))
  | recorded =>
      dsimp only at membership
      rcases mem_replaceCall membership with before | same
      · exact .inl before
      · cases same
  | unlinked =>
      dsimp only at membership
      rcases mem_replaceCall membership with before | same
      · exact .inl before
      · unfold unlinkingRest at same
        split at same
        next finished => cases same
        next unfinished =>
          cases same
          exact .inr (.inl ⟨_, rfl⟩)
  | aborted =>
      dsimp only at membership
      rcases mem_replaceCall membership with before | same
      · exact .inl before
      · cases same

/-- A snapshot that a step removes was deleted outright or by a prune that
had it next to drop. -/
theorem dropped_or_deleted {blake3 : Blake3} {store next : SharedStore} {event : Event}
    {snapshot : Ulid} (stepped : step blake3 store event = some next)
    (live : snapshot ∈ store.disk.tables.snapshots)
    (removed : snapshot ∉ next.disk.tables.snapshots) :
    event = .deleteSnapshot snapshot ∨
      ∃ call ∈ store.calls, ∃ nowMs mode rest, call = .dropping nowMs mode (snapshot :: rest) := by
  have changed := tables_step stepped
  cases ran : transaction? store event with
  | none =>
      simp only [ran] at changed
      rw [changed] at removed
      exact absurd live removed
  | some transaction =>
      simp only [ran] at changed
      rw [changed] at removed
      have deletes := not_mem_snapshots_commit live removed
      subst deletes
      cases event with
      | deleteSnapshot other =>
          cases ran
          exact .inl rfl
      | advance place =>
          simp only [transaction?] at ran
          split at ran
          next found =>
            cases ran
            exact .inr ⟨_, List.mem_of_getElem? found, _, _, _, rfl⟩
          next found => cases ran
          next other => cases ran
      | putChunk id data => cases ran
      | putSnapshotAs other blob refs owner => cases ran
      | deleteChunk id => cases ran
      | gc nowMs grace => cases ran
      | prune nowMs policy mode => cases ran
      | unlink place id => cases ran
      | abort place => cases ran

end Busyncr.Daemon
