import Busyncr.Daemon.Interleaving

/-!
What retention loses over a whole run.

`Superseded` records why a snapshot may be gone: some plan of the run listed
it together with a greater ULID of the same cell.  It is what a pending drop
of a prune stands for, and what the loss of a snapshot leaves behind; with
nested cells it means that a greater ULID of the coarser cell was stored.
-/

namespace Busyncr.Daemon

open Std Store Transition

abbrev History := List (Visit SharedStore Event)

/-- The snapshot was stored by some step of the history. -/
def Stored (history : History) (snapshot : Ulid) : Prop :=
  ∃ visit ∈ history, snapshot ∉ visit.before.disk.tables.snapshots ∧
    snapshot ∈ visit.after.disk.tables.snapshots

instance (history : History) (snapshot : Ulid) : Decidable (Stored history snapshot) :=
  inferInstanceAs (Decidable (∃ visit ∈ history, _))

/-- The snapshot was stored by some step of the history as owned by the
client. -/
def Shipped (history : History) (client : String) (snapshot : Ulid) : Prop :=
  ∃ visit ∈ history, snapshot ∉ visit.before.disk.tables.snapshots ∧
    snapshot ∈ visit.after.disk.tables.snapshots ∧
    visit.after.disk.tables.snapshotOwner[snapshot]? = some client

theorem Shipped.stored {history : History} {client : String} {snapshot : Ulid}
    (shipped : Shipped history client snapshot) : Stored history snapshot := by
  obtain ⟨visit, visited, fresh, live, _⟩ := shipped
  exact ⟨visit, visited, fresh, live⟩

/-- The snapshots live after some step of the history. -/
def everLive (history : History) : List Ulid :=
  history.flatMap fun visit => visit.after.disk.tables.snapshots.keys

theorem Stored.mem_everLive {history : History} {snapshot : Ulid}
    (stored : Stored history snapshot) : snapshot ∈ everLive history := by
  rcases stored with ⟨visit, visited, _, live⟩
  exact List.mem_flatMap.mpr ⟨visit, visited, ExtTreeMap.mem_keys.mpr live⟩

/-- The instant, policy and listing of the plan a step computes. -/
def plannedAt (visit : Visit SharedStore Event) :
    Option (Int64 × Retention.RetentionPolicy × List Ulid) :=
  match visit.event with
  | .advance place =>
      match visit.before.calls[place]? with
      | some (.listed nowMs policy _ snapshots) => some (nowMs, policy, snapshots)
      | _ => none
  | _ => none

/-- The tier a plan places a snapshot in. -/
def tierIndex (policy : Retention.RetentionPolicy) (nowMs : Int64) (snapshot : Ulid) :
    Option Nat :=
  (policy.tierFor (Retention.ageOf nowMs (ulidTimeMs snapshot))).map Prod.fst

/-- Every plan of the history that listed the snapshot placed it in a tier
with index at most `bound`. -/
def PlannedUpTo (history : History) (snapshot : Ulid) (bound : Nat) : Prop :=
  ∀ visit ∈ history, ∀ plan ∈ plannedAt visit, snapshot ∈ plan.2.2 →
    ∀ index ∈ tierIndex plan.2.1 plan.1 snapshot, index ≤ bound

instance (history : History) (snapshot : Ulid) (bound : Nat) :
    Decidable (PlannedUpTo history snapshot bound) :=
  inferInstanceAs (Decidable (∀ visit ∈ history, _))

/-- Snapshots are deleted by prunes under the given policy only. -/
def PrunesOnly (policy : Retention.RetentionPolicy) : Event → Prop
  | .deleteSnapshot _ => False
  | .prune _ used _ => used = policy
  | _ => True

instance (policy : Retention.RetentionPolicy) (event : Event) :
    Decidable (PrunesOnly policy event) :=
  match event with
  | .deleteSnapshot _ => .isFalse id
  | .prune _ used _ => inferInstanceAs (Decidable (used = policy))
  | .putChunk _ _ => .isTrue trivial
  | .putSnapshotAs _ _ _ _ => .isTrue trivial
  | .deleteChunk _ => .isTrue trivial
  | .gc _ _ => .isTrue trivial
  | .advance _ => .isTrue trivial
  | .unlink _ _ => .isTrue trivial
  | .abort _ => .isTrue trivial

/-- The cell of a snapshot at the width of a tier. -/
def cellOf (tier : Retention.Tier) (snapshot : Ulid) : Int64 :=
  Saturating.divEuclid (ulidTimeMs snapshot) tier.cellMs

section Invariant

variable (policy : Retention.RetentionPolicy) (history : History)

/-- Some plan of the history listed the snapshot with a greater ULID of the
same cell. -/
def Superseded (snapshot : Ulid) : Prop :=
  ∃ visit ∈ history, ∃ nowMs snapshots, plannedAt visit = some (nowMs, policy, snapshots) ∧
    snapshot ∈ snapshots ∧ ∃ greater, Stored history greater ∧ snapshot < greater ∧
      ∃ key, Retention.cellKey policy nowMs (ulidTimeMs snapshot) = some key ∧
        Retention.cellKey policy nowMs (ulidTimeMs greater) = some key

/-- What a call in flight may rely on: a listing names stored snapshots in
order, and a pending drop is superseded. -/
def CallSound : InFlight → Prop
  | .unlinking _ => True
  | .listed _ used _ snapshots =>
      used = policy ∧ snapshots.Pairwise (· < ·) ∧
        ∀ snapshot ∈ snapshots, Stored history snapshot
  | .dropping _ _ drop => ∀ snapshot ∈ drop, Superseded policy history snapshot

/-- Every live snapshot was stored, and a stored one is live or superseded. -/
structure Retained (store : SharedStore) : Prop where
  stored : ∀ snapshot ∈ store.disk.tables.snapshots, Stored history snapshot
  calls : ∀ call ∈ store.calls, CallSound policy history call
  kept : ∀ snapshot, Stored history snapshot →
    snapshot ∈ store.disk.tables.snapshots ∨ Superseded policy history snapshot

variable {policy history}

theorem Stored.mono {snapshot : Ulid} (stored : Stored history snapshot)
    (visit : Visit SharedStore Event) : Stored (history ++ [visit]) snapshot := by
  rcases stored with ⟨earlier, membership, became⟩
  exact ⟨earlier, List.mem_append_left _ membership, became⟩

theorem Superseded.mono {snapshot : Ulid} (superseded : Superseded policy history snapshot)
    (visit : Visit SharedStore Event) : Superseded policy (history ++ [visit]) snapshot := by
  rcases superseded with ⟨earlier, membership, nowMs, snapshots, planned, listed, greater,
    stored, less, sameCell⟩
  exact ⟨earlier, List.mem_append_left _ membership, nowMs, snapshots, planned, listed, greater,
    stored.mono visit, less, sameCell⟩

theorem CallSound.mono {call : InFlight} (sound : CallSound policy history call)
    (visit : Visit SharedStore Event) : CallSound policy (history ++ [visit]) call := by
  cases call with
  | unlinking ids => trivial
  | listed nowMs used mode snapshots =>
      rcases sound with ⟨same, ascending, stored⟩
      exact ⟨same, ascending, fun snapshot listed => (stored snapshot listed).mono visit⟩
  | dropping nowMs mode drop =>
      exact fun snapshot pending => (sound snapshot pending).mono visit

/-- A step of a prune leaves a sound call. -/
theorem CallSound.successor {store next : SharedStore} {event : Event} {call : InFlight}
    (retained : Retained policy history store) (allowed : PrunesOnly policy event)
    (successor : PruneSuccessor store event call) :
    CallSound policy (history ++ [⟨store, event, next⟩]) call := by
  cases successor with
  | begun nowMs used mode =>
      refine ⟨allowed, listSnapshots_ascending _, fun snapshot listed => ?_⟩
      exact (retained.stored snapshot (mem_listSnapshots_iff.mp listed)).mono _
  | @planned place nowMs used mode snapshots found =>
      rcases retained.calls _ (List.mem_of_getElem? found) with ⟨same, ascending, stored⟩
      subst same
      intro snapshot dropped
      rcases exists_greater_of_mem_drop ascending dropped with ⟨greater, listed, less, sameCell⟩
      refine ⟨_, List.mem_append_right _ (List.mem_singleton.mpr rfl), nowMs, snapshots, ?_,
        mem_of_mem_drop dropped, greater, (stored greater listed).mono _, less, sameCell⟩
      simp [plannedAt, found]
  | dropped found =>
      have sound := retained.calls _ (List.mem_of_getElem? found)
      intro snapshot pending
      exact (sound snapshot (List.mem_cons_of_mem _ pending)).mono _

/-- One step keeps the invariant. -/
theorem Retained.step {blake3 : Blake3} {store next : SharedStore} {event : Event}
    (retained : Retained policy history store) (allowed : PrunesOnly policy event)
    (stepped : step blake3 store event = some next) :
    Retained policy (history ++ [⟨store, event, next⟩]) next := by
  refine ⟨fun snapshot live => ?_, fun call membership => ?_, fun snapshot stored => ?_⟩
  · by_cases before : snapshot ∈ store.disk.tables.snapshots
    · exact (retained.stored snapshot before).mono _
    · exact ⟨_, List.mem_append_right _ (List.mem_singleton.mpr rfl), before, live⟩
  · rcases mem_calls_step stepped membership with before | ⟨ids, unlinking⟩ | successor
    · exact (retained.calls call before).mono _
    · rw [unlinking]
      trivial
    · exact CallSound.successor retained allowed successor
  · by_cases live : snapshot ∈ next.disk.tables.snapshots
    · exact .inl live
    · right
      have earlier : Stored history snapshot := by
        rcases stored with ⟨visit, membership, fresh, became⟩
        rcases List.mem_append.mp membership with before | last
        · exact ⟨visit, before, fresh, became⟩
        · rw [List.mem_singleton.mp last] at became
          exact absurd became live
      rcases retained.kept snapshot earlier with wasLive | superseded
      · rcases dropped_or_deleted stepped wasLive live with
          deleted | ⟨call, inFlight, nowMs, mode, rest, isDropping⟩
        · subst deleted
          exact absurd allowed id
        · have sound := retained.calls call inFlight
          rw [isDropping] at sound
          exact (sound snapshot (by simp)).mono _
      · exact superseded.mono _

theorem snapshotOwner_step {blake3 : Blake3} {store next : SharedStore} {event : Event}
    {snapshot : Ulid} (stepped : step blake3 store event = some next)
    (live : snapshot ∈ store.disk.tables.snapshots)
    (stillLive : snapshot ∈ next.disk.tables.snapshots) :
    next.disk.tables.snapshotOwner[snapshot]? = store.disk.tables.snapshotOwner[snapshot]? := by
  have changed := tables_step stepped
  cases ran : transaction? store event with
  | none =>
      simp only [ran] at changed
      rw [changed]
  | some transaction =>
      simp only [ran] at changed
      rw [changed] at stillLive ⊢
      exact (snapshot_commit live stillLive).2.2

/-- A shipped snapshot is live and still its client's, or superseded. -/
def OwnersKept (policy : Retention.RetentionPolicy) (history : History) (store : SharedStore) :
    Prop :=
  ∀ client snapshot, Shipped history client snapshot →
    snapshot ∈ store.disk.tables.snapshots ∧
        store.disk.tables.snapshotOwner[snapshot]? = some client ∨
      Superseded policy history snapshot

theorem OwnersKept.step {blake3 : Blake3} {store next : SharedStore} {event : Event}
    (owners : OwnersKept policy history store) (retained : Retained policy history store)
    (allowed : PrunesOnly policy event) (stepped : step blake3 store event = some next) :
    OwnersKept policy (history ++ [⟨store, event, next⟩]) next := by
  intro client snapshot shipped
  have after := retained.step allowed stepped
  rcases after.kept snapshot shipped.stored with live | superseded
  · obtain ⟨visit, membership, fresh, became, owner⟩ := shipped
    rcases List.mem_append.mp membership with earlier | last
    · rcases owners client snapshot ⟨visit, earlier, fresh, became, owner⟩ with
        ⟨wasLive, owned⟩ | superseded
      · left
        exact ⟨live, by rw [snapshotOwner_step stepped wasLive live, owned]⟩
      · exact .inr (superseded.mono _)
    · rw [List.mem_singleton.mp last] at owner
      exact .inl ⟨live, owner⟩
  · exact .inr superseded

/-- A superseded snapshot has a greater one stored in its cell at the width
of any tier that no plan had placed it beyond. -/
theorem Superseded.exists_greater (nested : policy.Nested) {snapshot : Ulid} {bound : Nat}
    {tier : Retention.Tier} (superseded : Superseded policy history snapshot)
    (width : policy.tiers[bound]? = some tier)
    (planned : ∀ visit ∈ history, ∀ nowMs snapshots,
      plannedAt visit = some (nowMs, policy, snapshots) → snapshot ∈ snapshots →
        ∀ index, tierIndex policy nowMs snapshot = some index → index ≤ bound) :
    ∃ greater, Stored history greater ∧ snapshot < greater ∧
      cellOf tier greater = cellOf tier snapshot := by
  rcases superseded with ⟨visit, visited, nowMs, snapshots, isPlan, listed, greater, stored, less,
    key, inCell, greaterInCell⟩
  refine ⟨greater, stored, less, ?_⟩
  have placed : tierIndex policy nowMs snapshot = some key.1 := by
    unfold Retention.cellKey at inCell
    rcases Option.map_eq_some_iff.mp inCell with ⟨selected, isSelected, rfl⟩
    simp [tierIndex, isSelected]
  have ordered : key.1 ≤ bound := planned visit visited nowMs snapshots isPlan listed key.1 placed
  exact Retention.same_coarser_cell nested greaterInCell inCell width ordered

/-- A stored snapshot is live when none greater was stored in its cell. -/
theorem Retained.live_of_greatest (nested : policy.Nested) {store : SharedStore}
    (retained : Retained policy history store) {snapshot : Ulid} {bound : Nat}
    {tier : Retention.Tier} (width : policy.tiers[bound]? = some tier)
    (stored : Stored history snapshot)
    (greatest : ∀ other, Stored history other → cellOf tier other = cellOf tier snapshot →
      other ≤ snapshot)
    (planned : ∀ visit ∈ history, ∀ nowMs snapshots,
      plannedAt visit = some (nowMs, policy, snapshots) → snapshot ∈ snapshots →
        ∀ index, tierIndex policy nowMs snapshot = some index → index ≤ bound) :
    snapshot ∈ store.disk.tables.snapshots := by
  rcases retained.kept snapshot stored with live | superseded
  · exact live
  · rcases superseded.exists_greater nested width planned with
      ⟨greater, greaterStored, less, sameCell⟩
    have notGreater := greatest greater greaterStored sameCell
    rw [Ulid.le_iff] at notGreater
    rw [Ulid.lt_iff] at less
    omega

/-- No plan places a snapshot beyond the last tier. -/
theorem tierIndex_le_last {nowMs : Int64} {snapshot : Ulid} {index : Nat}
    (placed : tierIndex policy nowMs snapshot = some index) :
    index ≤ policy.tiers.length - 1 := by
  rcases Option.map_eq_some_iff.mp placed with ⟨⟨_, tier⟩, selected, rfl⟩
  have inRange := (List.getElem?_eq_some_iff.mp (Retention.tierFor_eq_some selected)).1
  omega

end Invariant

/-- The steps of a run from the empty store. -/
def historyOf (blake3 : Blake3) (events : List Event) : History :=
  visits (step blake3) .empty events

/-- The invariant holds in every state that prunes under one policy reach. -/
theorem retained_of_run {blake3 : Blake3} {policy : Retention.RetentionPolicy}
    {events : List Event} {final : SharedStore}
    (executed : run (step blake3) .empty events = some final)
    (allowed : ∀ event ∈ events, PrunesOnly policy event) :
    Retained policy (historyOf blake3 events) final := by
  have initial : Retained policy [] .empty := by
    refine ⟨?_, ?_, ?_⟩ <;> simp [SharedStore.empty, Disk.empty, Tables.empty, Stored]
  revert allowed
  refine run_induction (fun events final => (∀ event ∈ events, PrunesOnly policy event) →
    Retained policy (historyOf blake3 events) final) (fun _ => initial) ?_ executed
  intro earlier middle event next reached inductionHypothesis stepped allowed
  rw [historyOf, visits_concat reached stepped]
  refine (inductionHypothesis fun other membership => ?_).step (allowed event (by simp)) stepped
  exact allowed other (List.mem_append_left _ membership)

theorem ownersKept_of_run {blake3 : Blake3} {policy : Retention.RetentionPolicy}
    {events : List Event} {final : SharedStore}
    (executed : run (step blake3) .empty events = some final)
    (allowed : ∀ event ∈ events, PrunesOnly policy event) :
    OwnersKept policy (historyOf blake3 events) final := by
  have initial : OwnersKept policy [] .empty := by
    intro client snapshot shipped
    simp [Shipped] at shipped
  revert allowed
  refine run_induction (fun events final => (∀ event ∈ events, PrunesOnly policy event) →
    OwnersKept policy (historyOf blake3 events) final) (fun _ => initial) ?_ executed
  intro earlier middle event next reached inductionHypothesis stepped allowed
  have before : ∀ other ∈ earlier, PrunesOnly policy other :=
    fun other membership => allowed other (List.mem_append_left _ membership)
  rw [historyOf, visits_concat reached stepped]
  exact (inductionHypothesis before).step (retained_of_run reached before)
    (allowed event (by simp)) stepped

/-- Under the default grid, whatever the schedule and the clocks of the
prunes: the greatest ULID ever stored in a cell of a tier's width is live as
long as no plan placed it in a coarser tier; so the greatest of every 16-day
cell and the greatest of all are live in every state. -/
theorem newest_of_cell_is_live (blake3 : Blake3) {events : List Event} {final : SharedStore}
    (executed : run (step blake3) .empty events = some final)
    (allowed : ∀ event ∈ events, PrunesOnly .defaultGrid event) :
    (∀ index tier snapshot, Retention.RetentionPolicy.defaultGrid.tiers[index]? = some tier →
      Stored (historyOf blake3 events) snapshot →
      (∀ other, Stored (historyOf blake3 events) other →
        cellOf tier other = cellOf tier snapshot → other ≤ snapshot) →
      PlannedUpTo (historyOf blake3 events) snapshot index →
        snapshot ∈ final.disk.tables.snapshots) ∧
    (∀ tier snapshot, Retention.RetentionPolicy.defaultGrid.tiers[3]? = some tier →
      Stored (historyOf blake3 events) snapshot →
      (∀ other, Stored (historyOf blake3 events) other →
        cellOf tier other = cellOf tier snapshot → other ≤ snapshot) →
        snapshot ∈ final.disk.tables.snapshots) ∧
    (∀ snapshot, Stored (historyOf blake3 events) snapshot →
      (∀ other, Stored (historyOf blake3 events) other → other ≤ snapshot) →
        snapshot ∈ final.disk.tables.snapshots) := by
  have retained := retained_of_run executed allowed
  have coarsest : ∀ tier snapshot,
      Retention.RetentionPolicy.defaultGrid.tiers[3]? = some tier →
      Stored (historyOf blake3 events) snapshot →
      (∀ other, Stored (historyOf blake3 events) other →
        cellOf tier other = cellOf tier snapshot → other ≤ snapshot) →
        snapshot ∈ final.disk.tables.snapshots := by
    intro tier snapshot width stored greatest
    refine retained.live_of_greatest Retention.defaultGrid_nested width stored greatest ?_
    intro visit visited nowMs snapshots isPlan listed index placed
    exact tierIndex_le_last placed
  refine ⟨?_, coarsest, ?_⟩
  · intro index tier snapshot width stored greatest planned
    refine retained.live_of_greatest Retention.defaultGrid_nested width stored greatest ?_
    intro visit visited nowMs snapshots isPlan listed placedIn placed
    exact planned visit visited _ isPlan listed placedIn placed
  · intro snapshot stored greatest
    exact coarsest ⟨.max, Retention.sixteenDays⟩ snapshot rfl stored
      fun other otherStored _ => greatest other otherStored

/-- Three snapshots of one three-hour cell; of two overlapping prunes the
first lists two of them and the second, with its clock set back, all three. -/
def overlappingPrunes (first second third : Ulid) : List Event :=
  [.putSnapshotAs first [] [] none, .putSnapshotAs second [] [] none,
    .prune 5 .defaultGrid .auto, .putSnapshotAs third [] [] none,
    .prune (-7) .defaultGrid .manual, .advance 1, .advance 0, .advance 0, .advance 1, .advance 1]

theorem newest_of_overlappingPrunes_is_live :
    ∃ final,
      run (step .onEmpty) .empty
        (overlappingPrunes (.fromParts 1 0) (.fromParts 1 1) (.fromParts 2 0)) = some final ∧
      final.disk.tables.snapshots.keys = [.fromParts 2 0] ∧
      .fromParts 2 0 ∈ final.disk.tables.snapshots := by
  have checked : ∃ final,
      run (step .onEmpty) .empty
        (overlappingPrunes (.fromParts 1 0) (.fromParts 1 1) (.fromParts 2 0)) = some final ∧
      final.disk.tables.snapshots.keys = [.fromParts 2 0] :=
    exists_final_of_any (by decide +kernel)
  rcases checked with ⟨final, executed, keys⟩
  refine ⟨final, executed, keys, ?_⟩
  refine (newest_of_cell_is_live .onEmpty executed (by decide)).1 0
    ⟨Retention.oneDay, Retention.threeHours⟩ _ rfl (by decide +kernel) ?_ (by decide +kernel)
  intro other stored _
  have bounded : ∀ candidate ∈ everLive (historyOf .onEmpty
      (overlappingPrunes (.fromParts 1 0) (.fromParts 1 1) (.fromParts 2 0))),
        candidate ≤ .fromParts 2 0 := by decide +kernel
  exact bounded other stored.mem_everLive

end Busyncr.Daemon
