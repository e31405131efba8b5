import Busyncr.Daemon.GraceRuns

/-!
The window of a backup: from the answer that a chunk is stored to the
`PutManifest` that refers to it.

`ProtectedFrom` is what keeps a chunk indexed through a run of gcs: it is
marked, if at all, no earlier than some base time, and every gc comes less
than a grace period after that time.
-/

namespace Busyncr.Daemon

open Std Store Transition

/-- The chunk is indexed, and marked no earlier than `base` if at all. -/
structure ProtectedFrom (base : Int64) (id : ChunkId) (tables : Tables) : Prop where
  indexed : id ∈ tables.chunks
  marked : ∀ markedAt, markOf tables.gcMarks id = some markedAt → base.toInt ≤ markedAt.toInt

/-- No chunk is deleted outright, and every gc comes less than its grace
period after `base`. -/
def WithinGrace (base : Int64) (timed : TimedEvent) : Prop :=
  timed.2.deletesChunk = false ∧ ∀ call ∈ timed.2.gcCall,
    base.toInt ≤ call.1.toInt ∧ call.1.toInt - base.toInt < (graceMillis call.2).toInt

theorem ProtectedFrom.gc {base : Int64} {id : ChunkId} {tables : Tables}
    (protectedFrom : ProtectedFrom base id tables) {nowMs : Int64} {grace : Duration}
    (later : base.toInt ≤ nowMs.toInt)
    (within : nowMs.toInt - base.toInt < (graceMillis grace).toInt) :
    ProtectedFrom base id (Store.gc tables nowMs grace).tables := by
  have unexpired : ¬ Expired tables nowMs grace id := by
    rintro ⟨entry, markedAt, _, _, marked, elapsed⟩
    have notBefore := protectedFrom.marked markedAt marked
    have bound := Int64.toInt_lt (graceMillis grace)
    rw [Int64.le_iff_toInt_le, Saturating.le_toInt_signedSub_iff (by omega) (by omega)] at elapsed
    omega
  refine ⟨?_, fun markedAt marked => ?_⟩
  · rcases mem_chunks_iff_chunkEntry.mp protectedFrom.indexed with ⟨entry, found⟩
    exact mem_chunks_iff_chunkEntry.mpr ⟨entry, by rw [chunkEntry_gc, if_neg unexpired, found]⟩
  · rcases (markOf_gc_eq_some marked).1 with kept | ⟨_, setNow⟩
    · exact protectedFrom.marked markedAt kept
    · rw [setNow]
      exact later

theorem ProtectedFrom.step {blake3 : Blake3} {base : Int64} {id : ChunkId}
    {store next : SharedStore} {timed : TimedEvent}
    (protectedFrom : ProtectedFrom base id store.disk.tables) (within : WithinGrace base timed)
    (stepped : timedStep blake3 store timed = some next) :
    ProtectedFrom base id next.disk.tables := by
  have changed := tables_step stepped
  cases ran : transaction? store timed.2 with
  | none =>
      simp only [ran] at changed
      rwa [changed]
  | some transaction =>
      simp only [ran] at changed
      rw [changed]
      by_cases isGc : ∃ nowMs grace, transaction = .gc nowMs grace
      · rcases isGc with ⟨nowMs, grace, rfl⟩
        have isCall : timed.2.gcCall = some (nowMs, grace) := by
          rw [event_of_gc ran]
          rfl
        rcases within.2 (nowMs, grace) isCall with ⟨later, recent⟩
        exact protectedFrom.gc later recent
      · have notGc : ∀ nowMs grace, transaction ≠ .gc nowMs grace :=
          fun nowMs grace same => isGc ⟨nowMs, grace, same⟩
        have notDeleted : transaction ≠ .deleteChunk id := by
          rintro rfl
          have deletes := within.1
          rw [event_of_deleteChunk ran] at deletes
          cases deletes
        refine ⟨mem_chunks_commit_of_mem notGc notDeleted protectedFrom.indexed, ?_⟩
        rw [gcMarks_commit notGc]
        exact protectedFrom.marked

/-- A protected chunk stays protected, and indexed, over any run whose gcs
all come within the grace period. -/
theorem ProtectedFrom.run {blake3 : Blake3} {base : Int64} {id : ChunkId}
    {store final : SharedStore} {events : List TimedEvent}
    (protectedFrom : ProtectedFrom base id store.disk.tables)
    (within : ∀ timed ∈ events, WithinGrace base timed)
    (executed : run (timedStep blake3) store events = some final) :
    ProtectedFrom base id final.disk.tables := by
  induction events generalizing store with
  | nil =>
      cases executed
      exact protectedFrom
  | cons timed rest inductionHypothesis =>
      rcases run_cons_eq_some executed with ⟨next, stepped, continued⟩
      refine inductionHypothesis (protectedFrom.step (within timed (by simp)) stepped) ?_ continued
      exact fun other membership => within other (List.mem_cons_of_mem _ membership)

/-- An indexed chunk is not what a `put_snapshot_as` fails on. -/
theorem putSnapshotAs_ne_unknownChunkRef {tables : Tables} {id : ChunkId}
    (indexed : id ∈ tables.chunks) (snapshot : Ulid) (blob : Bytes) (refs : List ChunkId)
    (owner : Option String) :
    putSnapshotAs tables snapshot blob refs owner ≠ .error (.unknownChunkRef snapshot id) := by
  intro refused
  unfold putSnapshotAs at refused
  split at refused
  next occupied => cases refused
  next fresh =>
    cases taken : bumpRefs snapshot refs tables.chunks with
    | ok chunks => simp [taken] at refused
    | error error =>
        simp only [taken] at refused
        cases refused
        rcases bumpRefs_error taken with ⟨_, chunk, _, _, _, unindexed, named⟩
        cases named
        exact unindexed indexed

/-- Times do not decrease, gcs read the clock and use one grace period, and
no chunk is deleted outright. -/
structure GracedTimeline (grace : Duration) (events : List TimedEvent) : Prop where
  ordered : events.Pairwise fun earlier later => earlier.1 ≤ later.1
  clocked : ∀ timed ∈ events, Clocked timed
  sameGrace : ∀ timed ∈ events, ∀ call ∈ timed.2.gcCall, call.2 = grace
  nothingDeleted : ∀ timed ∈ events, timed.2.deletesChunk = false

instance (grace : Duration) (events : List TimedEvent) :
    Decidable (GracedTimeline grace events) :=
  decidable_of_iff
    ((events.Pairwise fun earlier later => earlier.1 ≤ later.1) ∧
      (∀ timed ∈ events, Clocked timed) ∧
      (∀ timed ∈ events, ∀ call ∈ timed.2.gcCall, call.2 = grace) ∧
      ∀ timed ∈ events, timed.2.deletesChunk = false)
    ⟨fun ⟨ordered, clocked, sameGrace, nothingDeleted⟩ =>
        ⟨ordered, clocked, sameGrace, nothingDeleted⟩,
      fun ⟨ordered, clocked, sameGrace, nothingDeleted⟩ =>
        ⟨ordered, clocked, sameGrace, nothingDeleted⟩⟩

theorem marksIndexed_of_run {blake3 : Blake3} {events : List TimedEvent} {final : SharedStore}
    (executed : run (timedStep blake3) .empty events = some final)
    (nothingDeleted : ∀ timed ∈ events, timed.2.deletesChunk = false) :
    MarksIndexed final.disk.tables := by
  revert nothingDeleted
  refine run_induction (fun events final => (∀ timed ∈ events, timed.2.deletesChunk = false) →
    MarksIndexed final.disk.tables) (fun _ => ?_) ?_ executed
  · intro id marked
    simp [SharedStore.empty, Disk.empty, Tables.empty] at marked
  · intro earlier middle timed next _ inductionHypothesis stepped nothingDeleted
    have before := inductionHypothesis fun other membership =>
      nothingDeleted other (List.mem_append_left _ membership)
    have changed := tables_step stepped
    cases ran : transaction? middle timed.2 with
    | none =>
        simp only [ran] at changed
        rwa [changed]
    | some transaction =>
        simp only [ran] at changed
        rw [changed]
        refine before.commit fun id same => ?_
        subst same
        have deletes := nothingDeleted timed (by simp)
        rw [event_of_deleteChunk ran] at deletes
        cases deletes

/-- A chunk that `put_chunk` newly stores is protected from its upload on. -/
theorem protectedFrom_of_upload {blake3 : Blake3} {store next : SharedStore} {time : Int64}
    {id : ChunkId} {data : Bytes} (indexed : MarksIndexed store.disk.tables)
    (returned : (putChunk blake3 store.disk id data).1 = true)
    (stepped : timedStep blake3 store (time, .putChunk id data) = some next) :
    ProtectedFrom time id next.disk.tables := by
  have fresh : id ∉ store.disk.tables.chunks := by
    intro occupied
    simp [putChunk, occupied] at returned
  cases stepped
  simp only [putChunk, if_neg fresh, indexChunk]
  refine ⟨by simp, fun markedAt marked => ?_⟩
  exact absurd (indexed id (mem_marks_iff_markOf.mpr ⟨markedAt, marked⟩)) fresh

/-- In a timeline, the gcs of a window that starts at `base` and stays below
a representable grace period are within grace. -/
theorem GracedTimeline.withinGrace {grace : Duration} {before early : List TimedEvent}
    {first : TimedEvent} (timeline : GracedTimeline grace (before ++ first :: early))
    (representable : (grace.asMillis : Int) ≤ 2 ^ 63 - 1)
    (recent : ∀ timed ∈ early, ∀ call ∈ timed.2.gcCall,
      call.1.toInt < first.1.toInt + grace.asMillis) :
    ∀ timed ∈ early, WithinGrace first.1 timed := by
  intro timed membership
  have inTimeline : timed ∈ before ++ first :: early := by simp [membership]
  refine ⟨timeline.nothingDeleted timed inTimeline, fun call isCall => ?_⟩
  have atTime : call.1 = timed.1 := timeline.clocked timed inTimeline call isCall
  have sameGrace : call.2 = grace := timeline.sameGrace timed inTimeline call isCall
  have later : first.1 ≤ timed.1 := by
    have tail := (List.pairwise_append.mp timeline.ordered).2.1
    exact (List.pairwise_cons.mp tail).1 timed membership
  have bound := recent timed membership call isCall
  rw [Int64.le_iff_toInt_le] at later
  rw [sameGrace, toInt_graceMillis, atTime]
  rw [atTime] at bound
  omega

/-- Nothing in a timeline comes after its last event. -/
theorem GracedTimeline.le_last {grace : Duration} {before early : List TimedEvent}
    {first last timed : TimedEvent}
    (timeline : GracedTimeline grace (before ++ first :: (early ++ [last])))
    (membership : timed ∈ early ++ [last]) : timed.1 ≤ last.1 := by
  have tail := (List.pairwise_append.mp timeline.ordered).2.1
  have inOrder := (List.pairwise_append.mp (List.pairwise_cons.mp tail).2).2.2
  rcases List.mem_append.mp membership with earlier | isLast
  · exact inOrder timed earlier last (by simp)
  · rw [List.mem_singleton.mp isLast]
    exact Int64.le_refl _

theorem GracedTimeline.of_append {grace : Duration} {first second : List TimedEvent}
    (timeline : GracedTimeline grace (first ++ second)) : GracedTimeline grace first := by
  have inFirst : ∀ {timed}, timed ∈ first → timed ∈ first ++ second :=
    fun membership => List.mem_append_left _ membership
  exact ⟨(List.pairwise_append.mp timeline.ordered).1,
    fun timed membership => timeline.clocked timed (inFirst membership),
    fun timed membership => timeline.sameGrace timed (inFirst membership),
    fun timed membership => timeline.nothingDeleted timed (inFirst membership)⟩

/-- A chunk newly stored at `time` is not removed by any gc before `time +
grace`; until the first later one no `put_snapshot` fails because of it. -/
theorem fresh_upload_survives_gc (blake3 : Blake3) {grace : Duration}
    {before after : List TimedEvent} {time : Int64} {id : ChunkId} {data : Bytes}
    {store : SharedStore}
    (timeline : GracedTimeline grace (before ++ (time, .putChunk id data) :: after))
    (representable : (grace.asMillis : Int) ≤ 2 ^ 63 - 1)
    (executed : run (timedStep blake3) .empty before = some store)
    (returned : (putChunk blake3 store.disk id data).1 = true) :
    (∀ early nowMs late middle, after = early ++ (nowMs, .gc nowMs grace) :: late →
      nowMs.toInt < time.toInt + grace.asMillis →
      run (timedStep blake3) .empty (before ++ (time, .putChunk id data) :: early) = some middle →
        id ∈ (gc middle.disk.tables nowMs grace).tables.chunks) ∧
    (∀ early late middle, after = early ++ late →
      (∀ timed ∈ early, ∀ call ∈ timed.2.gcCall, call.1.toInt < time.toInt + grace.asMillis) →
      run (timedStep blake3) .empty (before ++ (time, .putChunk id data) :: early) = some middle →
        ∀ snapshot blob refs owner, putSnapshotAs middle.disk.tables snapshot blob refs owner ≠
          .error (.unknownChunkRef snapshot id)) := by
  have window : ∀ early late middle, after = early ++ late →
      (∀ timed ∈ early, ∀ call ∈ timed.2.gcCall, call.1.toInt < time.toInt + grace.asMillis) →
      run (timedStep blake3) .empty (before ++ (time, .putChunk id data) :: early) = some middle →
        ProtectedFrom time id middle.disk.tables := by
    rintro early late middle rfl recent reached
    rcases run_append_eq_some reached with ⟨_, same, continued⟩
    rw [executed] at same
    cases same
    rcases run_cons_eq_some continued with ⟨next, stepped, rest⟩
    have regrouped : GracedTimeline grace
        ((before ++ (time, .putChunk id data) :: early) ++ late) := by simpa using timeline
    have indexed := marksIndexed_of_run executed timeline.of_append.nothingDeleted
    refine (protectedFrom_of_upload indexed returned stepped).run ?_ rest
    exact regrouped.of_append.withinGrace representable recent
  refine ⟨?_, ?_⟩
  · rintro early nowMs late middle rfl recent reached
    have regrouped : GracedTimeline grace ((before ++ (time, .putChunk id data) ::
        (early ++ [(nowMs, .gc nowMs grace)])) ++ late) := by simpa using timeline
    have inWindow : ∀ timed ∈ early ++ [(nowMs, .gc nowMs grace)], ∀ call ∈ timed.2.gcCall,
        call.1.toInt < time.toInt + grace.asMillis := by
      intro timed membership call isCall
      have notLater : timed.1 ≤ nowMs := regrouped.of_append.le_last membership
      have atTime : call.1 = timed.1 :=
        regrouped.of_append.clocked timed
          (List.mem_append_right _ (List.mem_cons_of_mem _ membership)) call isCall
      rw [Int64.le_iff_toInt_le] at notLater
      rw [atTime]
      omega
    have within := regrouped.of_append.withinGrace representable inWindow
      (nowMs, .gc nowMs grace) (by simp)
    rcases within.2 (nowMs, grace) rfl with ⟨later, inGrace⟩
    have shielded := window early ((nowMs, .gc nowMs grace) :: late) middle rfl
      (fun timed membership => inWindow timed (by simp [membership])) reached
    exact (shielded.gc later inGrace).indexed
  · intro early late middle split recent reached
    exact putSnapshotAs_ne_unknownChunkRef (window early late middle split recent reached).indexed

/-- A chunk is uploaded, marked and swept. -/
def sweptRun (chunk : ChunkId) : List TimedEvent :=
  [(0, .putChunk chunk []), (0, .gc 0 (.fromMillis 10)), (10, .gc 10 (.fromMillis 10))]

theorem upload_after_sweep_survives_gc :
    ∃ store middle,
      run (timedStep .onEmpty) .empty (sweptRun ⟨.replicate 32 7⟩) = some store ∧
      (putChunk .onEmpty store.disk ⟨.replicate 32 7⟩ []).1 = true ∧
      run (timedStep .onEmpty) .empty
        (sweptRun ⟨.replicate 32 7⟩ ++ [(12, .putChunk ⟨.replicate 32 7⟩ [])]) = some middle ∧
      ⟨.replicate 32 7⟩ ∈ (gc middle.disk.tables 21 (.fromMillis 10)).tables.chunks := by
  have swept : ∃ store,
      run (timedStep .onEmpty) .empty (sweptRun ⟨.replicate 32 7⟩) = some store ∧
      (putChunk .onEmpty store.disk ⟨.replicate 32 7⟩ []).1 = true :=
    exists_final_of_any (by decide +kernel)
  have uploaded : (run (timedStep .onEmpty) .empty
      (sweptRun ⟨.replicate 32 7⟩ ++ [(12, .putChunk ⟨.replicate 32 7⟩ [])])).isSome := by
    decide +kernel
  have timeline : GracedTimeline (.fromMillis 10) (sweptRun ⟨.replicate 32 7⟩ ++
      (12, .putChunk ⟨.replicate 32 7⟩ []) :: [(21, .gc 21 (.fromMillis 10))]) := by
    decide
  rcases swept with ⟨store, executed, returned⟩
  rcases Option.isSome_iff_exists.mp uploaded with ⟨middle, reached⟩
  refine ⟨store, middle, executed, returned, reached, ?_⟩
  exact (fresh_upload_survives_gc .onEmpty timeline (by decide) executed returned).1
    [] 21 [] middle rfl (by decide) reached

/-- What may follow the answer given at `time` until the backup is done: any
events of the daemon, with every gc before `time + grace`. -/
structure BackupWindow (grace : Duration) (time : Int64) (events : List TimedEvent) : Prop where
  timeline : GracedTimeline grace events
  afterAnswer : ∀ timed ∈ events, time ≤ timed.1
  recent : ∀ timed ∈ events, ∀ call ∈ timed.2.gcCall,
    call.1.toInt < time.toInt + grace.asMillis

/-- Whatever happens in the window, no `put_snapshot` fails because of the
chunk. -/
def KeptForBackup (blake3 : Blake3) (store : SharedStore) (time : Int64) (grace : Duration)
    (id : ChunkId) : Prop :=
  ∀ events final, BackupWindow grace time events →
    run (timedStep blake3) store events = some final →
      ∀ snapshot blob refs owner, putSnapshotAs final.disk.tables snapshot blob refs owner ≠
        .error (.unknownChunkRef snapshot id)

/-- No gc in the window starting at `time` finds the chunk marked for a whole
grace period: there is no window, or the chunk is unmarked or marked no
earlier than `time` or so late that no clock reaches the end of its grace
period, and a grace period beyond `i64::MAX` cannot be cut off. -/
def MarkOutlastsWindow (tables : Tables) (time : Int64) (grace : Duration) (id : ChunkId) : Prop :=
  grace.asMillis = 0 ∨
    (∀ markedAt ∈ markOf tables.gcMarks id,
      time ≤ markedAt ∨ 2 ^ 63 - 1 < markedAt.toInt + (graceMillis grace).toInt) ∧
    ((grace.asMillis : Int) ≤ 2 ^ 63 - 1 ∨ 0 < time.toInt)

theorem BackupWindow.withinGrace {grace : Duration} {time base : Int64}
    {events : List TimedEvent} (window : BackupWindow grace time events)
    (notAfter : base.toInt ≤ time.toInt)
    (inGrace : ∀ nowMs : Int64, time.toInt ≤ nowMs.toInt →
      nowMs.toInt < time.toInt + grace.asMillis →
        nowMs.toInt - base.toInt < (graceMillis grace).toInt) :
    ∀ timed ∈ events, WithinGrace base timed := by
  intro timed membership
  refine ⟨window.timeline.nothingDeleted timed membership, fun call isCall => ?_⟩
  have atTime : call.1 = timed.1 := window.timeline.clocked timed membership call isCall
  have later := window.afterAnswer timed membership
  rw [← atTime, Int64.le_iff_toInt_le] at later
  rw [window.timeline.sameGrace timed membership call isCall]
  exact ⟨by omega, inGrace call.1 later (window.recent timed membership call isCall)⟩

/-- A chunk that is indexed and marked no earlier than a base that no gc of
the window leaves a grace period behind is kept. -/
theorem keptForBackup_of_base {blake3 : Blake3} {store : SharedStore} {time : Int64}
    {grace : Duration} {id : ChunkId} (base : Int64)
    (protectedFrom : ProtectedFrom base id store.disk.tables)
    (notAfter : base.toInt ≤ time.toInt)
    (inGrace : ∀ nowMs : Int64, time.toInt ≤ nowMs.toInt →
      nowMs.toInt < time.toInt + grace.asMillis →
        nowMs.toInt - base.toInt < (graceMillis grace).toInt) :
    KeptForBackup blake3 store time grace id := by
  intro events final window executed
  have kept := protectedFrom.run (window.withinGrace notAfter inGrace) executed
  exact putSnapshotAs_ne_unknownChunkRef kept.indexed

theorem keptForBackup_of_mark {blake3 : Blake3} {store : SharedStore} {time : Int64}
    {grace : Duration} {id : ChunkId} (held : id ∈ store.disk.tables.chunks)
    (outlasts : MarkOutlastsWindow store.disk.tables time grace id) :
    KeptForBackup blake3 store time grace id := by
  have clamped := toInt_graceMillis grace
  rcases outlasts with noWindow | ⟨marks, bounded⟩
  · refine keptForBackup_of_base Int64.minValue ⟨held, fun markedAt _ => ?_⟩ ?_ ?_
    · exact Int64.le_toInt markedAt
    · exact Int64.le_toInt time
    · intro nowMs later recent
      omega
  · by_cases early : ∃ markedAt, markOf store.disk.tables.gcMarks id = some markedAt ∧
        ¬ time ≤ markedAt
    · rcases early with ⟨markedAt, marked, before⟩
      rw [Int64.le_iff_toInt_le] at before
      have beyond : 2 ^ 63 - 1 < markedAt.toInt + (graceMillis grace).toInt := by
        rcases marks markedAt marked with notBefore | beyond
        · rw [Int64.le_iff_toInt_le] at notBefore
          omega
        · exact beyond
      refine keptForBackup_of_base markedAt ⟨held, fun other isMark => ?_⟩ (by omega) ?_
      · rw [marked] at isMark
        cases isMark
        exact Int.le_refl _
      · intro nowMs later recent
        have bound := Int64.toInt_lt nowMs
        omega
    · refine keptForBackup_of_base time ⟨held, fun markedAt marked => ?_⟩
        (Int.le_refl _) ?_
      · by_contra before
        exact early ⟨markedAt, marked, fun notBefore => before (Int64.le_iff_toInt_le.mp notBefore)⟩
      · intro nowMs later recent
        have bound := Int64.toInt_lt nowMs
        rcases bounded with representable | positive <;> omega

/-- Delete all the given snapshots at one instant. -/
def deleteAllAt (time : Int64) (snapshots : List Ulid) : List TimedEvent :=
  snapshots.map fun snapshot => (time, .deleteSnapshot snapshot)

theorem mem_snapshots_commit_deleteSnapshot {tables : Tables} {snapshot other : Ulid}
    (live : other ∈ ((Transaction.deleteSnapshot snapshot).commit tables).snapshots) :
    other ∈ tables.snapshots ∧ other ≠ snapshot := by
  cases outcome : (Transaction.deleteSnapshot snapshot).result tables with
  | error error =>
      rw [Transaction.commit_of_error outcome] at live
      refine ⟨live, ?_⟩
      rintro rfl
      simp [Transaction.result, deleteSnapshot, live] at outcome
  | ok next =>
      rw [Transaction.commit_of_ok outcome] at live
      rcases deleteSnapshot_ok outcome with ⟨_, rfl⟩
      rcases ExtTreeMap.mem_erase.mp live with ⟨different, before⟩
      refine ⟨before, fun same => different ?_⟩
      rw [same]
      exact LawfulEqOrd.compare_eq_iff_eq.mpr rfl

/-- Deleting snapshots keeps the counts exact, the marks and the index keys. -/
theorem run_deleteAllAt {blake3 : Blake3} {store : SharedStore} (time : Int64)
    (snapshots : List Ulid) (exact : RefcountExact store.disk.tables) :
    ∃ final, run (timedStep blake3) store (deleteAllAt time snapshots) = some final ∧
      RefcountExact final.disk.tables ∧
      final.disk.tables.gcMarks = store.disk.tables.gcMarks ∧
      (∀ id ∈ store.disk.tables.chunks, id ∈ final.disk.tables.chunks) ∧
      ∀ other ∈ final.disk.tables.snapshots,
        other ∈ store.disk.tables.snapshots ∧ other ∉ snapshots := by
  induction snapshots generalizing store with
  | nil => exact ⟨store, rfl, exact, rfl, fun _ indexed => indexed, fun _ live => ⟨live, by simp⟩⟩
  | cons snapshot rest inductionHypothesis =>
      let next := store.commit (.deleteSnapshot snapshot)
      have nextExact : RefcountExact next.disk.tables :=
        Transaction.commit_cases RefcountExact exact fun _ deleted => exact.deleteSnapshot deleted
      rcases inductionHypothesis nextExact with
        ⟨final, executed, finalExact, marks, kept, live⟩
      refine ⟨final, executed, finalExact, ?_, fun id indexed => kept id ?_, fun other isLive => ?_⟩
      · rw [marks]
        exact gcMarks_commit (by simp)
      · exact mem_chunks_commit_of_mem (by simp) (by simp) indexed
      · rcases live other isLive with ⟨wasLive, notInRest⟩
        rcases mem_snapshots_commit_deleteSnapshot wasLive with ⟨before, different⟩
        exact ⟨before, by simp [different, notInRest]⟩

theorem unreferenced_of_none_live {tables : Tables} (exact : RefcountExact tables)
    (noneLive : ∀ snapshot, snapshot ∉ tables.snapshots) {id : ChunkId}
    (indexed : id ∈ tables.chunks) : Unreferenced tables id := by
  rcases mem_chunks_iff_chunkEntry.mp indexed with ⟨entry, found⟩
  refine unreferenced_iff.mpr ⟨entry, found, ?_⟩
  rw [exact.counted id entry found, List.count_eq_zero]
  intro live
  rcases mem_liveRefs_iff.mp live with ⟨snapshot, isLive, _⟩
  exact noneLive snapshot isLive

theorem backupWindow_deleteAllAt (grace : Duration) (time : Int64) (snapshots : List Ulid) :
    BackupWindow grace time (deleteAllAt time snapshots) := by
  have atTime : ∀ timed ∈ deleteAllAt time snapshots,
      timed.1 = time ∧ timed.2.gcCall = none ∧ timed.2.deletesChunk = false := by
    intro timed membership
    rcases List.mem_map.mp membership with ⟨snapshot, _, rfl⟩
    exact ⟨rfl, rfl, rfl⟩
  refine ⟨⟨?_, ?_, ?_, ?_⟩, ?_, ?_⟩
  · refine List.pairwise_iff_forall_sublist.mpr fun {earlier later} sublist => ?_
    have bothIn := sublist.subset
    rw [(atTime earlier (bothIn (by simp))).1, (atTime later (bothIn (by simp))).1]
    exact Int64.le_refl _
  · intro timed membership call isCall
    simp [(atTime timed membership).2.1] at isCall
  · intro timed membership call isCall
    simp [(atTime timed membership).2.1] at isCall
  · exact fun timed membership => (atTime timed membership).2.2
  · intro timed membership
    rw [(atTime timed membership).1]
    exact Int64.le_refl _
  · intro timed membership call isCall
    simp [(atTime timed membership).2.1] at isCall

/-- A window may go on with a gc that is not earlier than anything in it. -/
theorem BackupWindow.concat_gc {grace : Duration} {time nowMs : Int64}
    {events : List TimedEvent} (window : BackupWindow grace time events)
    (latest : ∀ timed ∈ events, timed.1 ≤ nowMs) (later : time ≤ nowMs)
    (recent : nowMs.toInt < time.toInt + grace.asMillis) :
    BackupWindow grace time (events ++ [(nowMs, .gc nowMs grace)]) := by
  refine ⟨⟨?_, ?_, ?_, ?_⟩, ?_, ?_⟩
  · refine List.pairwise_append.mpr ⟨window.timeline.ordered, List.pairwise_singleton _ _, ?_⟩
    intro timed membership last isLast
    rw [List.mem_singleton.mp isLast]
    exact latest timed membership
  all_goals
    intro timed membership
    rcases List.mem_append.mp membership with earlier | isLast
  · exact window.timeline.clocked timed earlier
  · rw [List.mem_singleton.mp isLast]
    rintro call ⟨⟩
    rfl
  · exact window.timeline.sameGrace timed earlier
  · rw [List.mem_singleton.mp isLast]
    rintro call ⟨⟩
    rfl
  · exact window.timeline.nothingDeleted timed earlier
  · rw [List.mem_singleton.mp isLast]
    rfl
  · exact window.afterAnswer timed earlier
  · rw [List.mem_singleton.mp isLast]
    exact later
  · exact window.recent timed earlier
  · rw [List.mem_singleton.mp isLast]
    rintro call ⟨⟩
    exact recent

/-- The state after one more gc. -/
theorem run_concat_gc {blake3 : Blake3} {store middle : SharedStore} {events : List TimedEvent}
    (executed : run (timedStep blake3) store events = some middle) (nowMs : Int64)
    (grace : Duration) :
    ∃ final, run (timedStep blake3) store (events ++ [(nowMs, .gc nowMs grace)]) = some final ∧
      final.disk.tables = (gc middle.disk.tables nowMs grace).tables := by
  have stepped : ∃ final, timedStep blake3 middle (nowMs, .gc nowMs grace) = some final :=
    ⟨_, rfl⟩
  rcases stepped with ⟨final, isFinal⟩
  refine ⟨final, by rw [run_concat, executed]; exact isFinal, ?_⟩
  exact tables_step isFinal

/-- A window that ends with a gc of a chunk whose grace period is over leaves
a backup that relies on the chunk without it. -/
theorem not_keptForBackup_of_sweep {blake3 : Blake3} {store middle : SharedStore}
    {time nowMs markedAt : Int64} {grace : Duration} {id : ChunkId} {events : List TimedEvent}
    (executed : run (timedStep blake3) store events = some middle)
    (window : BackupWindow grace time (events ++ [(nowMs, .gc nowMs grace)]))
    (noneLive : ∀ snapshot, snapshot ∉ middle.disk.tables.snapshots)
    (unreferenced : Unreferenced middle.disk.tables id)
    (marked : markOf middle.disk.tables.gcMarks id = some markedAt)
    (elapsed : (graceMillis grace).toInt ≤ nowMs.toInt - markedAt.toInt) :
    ¬ KeptForBackup blake3 store time grace id := by
  intro kept
  rcases run_concat_gc executed nowMs grace with ⟨final, reached, isFinal⟩
  rcases unreferenced with ⟨entry, found, zero⟩
  have clamped := toInt_graceMillis grace
  have expired : Expired middle.disk.tables nowMs grace id := by
    refine ⟨entry, markedAt, found, zero, marked, ?_⟩
    rw [Int64.le_iff_toInt_le, Saturating.le_toInt_signedSub_iff (by omega) (by omega)]
    exact elapsed
  have swept : chunkEntry final.disk.tables.chunks id = none := by
    rw [isFinal, chunkEntry_gc, if_pos expired]
  have absent : Ulid.fromParts 0 0 ∉ final.disk.tables.snapshots := by
    rw [isFinal]
    exact noneLive _
  refine kept _ final window reached (.fromParts 0 0) [] [id] none ?_
  simp [putSnapshotAs, absent, bumpRefs, swept]

/-- Every mark was set by a gc of the run. -/
theorem marks_le_of_run {blake3 : Blake3} {events : List TimedEvent} {final : SharedStore}
    {time : Int64} (executed : run (timedStep blake3) .empty events = some final)
    (clocked : ∀ timed ∈ events, Clocked timed) (past : ∀ timed ∈ events, timed.1 ≤ time)
    {id : ChunkId} {markedAt : Int64}
    (marked : markOf final.disk.tables.gcMarks id = some markedAt) : markedAt ≤ time := by
  revert id markedAt clocked past
  refine run_induction (fun events final => (∀ timed ∈ events, Clocked timed) →
    (∀ timed ∈ events, timed.1 ≤ time) → ∀ {id : ChunkId} {markedAt : Int64},
      markOf final.disk.tables.gcMarks id = some markedAt → markedAt ≤ time) ?_ ?_ executed
  · intro _ _ id markedAt marked
    simp [SharedStore.empty, Disk.empty, Tables.empty, markOf] at marked
  · intro earlier middle timed next _ inductionHypothesis stepped clocked past id markedAt marked
    have before : ∀ {markedAt : Int64},
        markOf middle.disk.tables.gcMarks id = some markedAt → markedAt ≤ time :=
      inductionHypothesis
        (fun other membership => clocked other (List.mem_append_left _ membership))
        (fun other membership => past other (List.mem_append_left _ membership))
    have changed := tables_step stepped
    cases ran : transaction? middle timed.2 with
    | none =>
        simp only [ran] at changed
        exact before (changed ▸ marked)
    | some transaction =>
        simp only [ran] at changed
        rw [changed] at marked
        by_cases isGc : ∃ nowMs grace, transaction = .gc nowMs grace
        · rcases isGc with ⟨nowMs, grace, rfl⟩
          rcases (markOf_gc_eq_some marked).1 with kept | ⟨_, setNow⟩
          · exact before kept
          · have atTime : nowMs = timed.1 := clocked timed (by simp) (nowMs, grace) (by
              rw [event_of_gc ran]
              rfl)
            rw [setNow, atTime]
            exact past timed (by simp)
        · rw [gcMarks_commit fun nowMs grace same => isGc ⟨nowMs, grace, same⟩] at marked
          exact before marked

/-- Deleting every live snapshot leaves an indexed chunk unreferenced, with
its mark untouched. -/
theorem exists_run_to_unreferenced (blake3 : Blake3) {store : SharedStore} (time : Int64)
    {id : ChunkId} (exact : RefcountExact store.disk.tables)
    (held : id ∈ store.disk.tables.chunks) :
    ∃ middle,
      run (timedStep blake3) store (deleteAllAt time (listSnapshots store.disk.tables)) =
        some middle ∧
      (∀ snapshot, snapshot ∉ middle.disk.tables.snapshots) ∧
      Unreferenced middle.disk.tables id ∧
      middle.disk.tables.gcMarks = store.disk.tables.gcMarks := by
  rcases run_deleteAllAt time (listSnapshots store.disk.tables) exact with
    ⟨middle, executed, middleExact, marks, kept, live⟩
  have noneLive : ∀ snapshot, snapshot ∉ middle.disk.tables.snapshots := by
    intro snapshot isLive
    rcases live snapshot isLive with ⟨wasLive, notListed⟩
    exact notListed (mem_listSnapshots_iff.mpr wasLive)
  exact ⟨middle, executed, noneLive,
    unreferenced_of_none_live middleExact noneLive (kept id held), marks⟩

theorem backupWindow_deleteAllAt_gc {grace : Duration} {time nowMs : Int64}
    (snapshots : List Ulid) (later : time.toInt ≤ nowMs.toInt)
    (recent : nowMs.toInt < time.toInt + grace.asMillis) :
    BackupWindow grace time (deleteAllAt time snapshots ++ [(nowMs, .gc nowMs grace)]) := by
  have ordered : time ≤ nowMs := Int64.le_iff_toInt_le.mpr later
  refine (backupWindow_deleteAllAt grace time snapshots).concat_gc ?_ ordered recent
  intro timed membership
  rcases List.mem_map.mp membership with ⟨_, _, rfl⟩
  exact ordered

/-- A chunk marked before the answer is lost to the backup when the snapshots
that hold it are deleted and a gc runs a grace period after its mark. -/
theorem not_keptForBackup_of_old_mark {blake3 : Blake3} {store : SharedStore}
    {time markedAt : Int64} {grace : Duration} {id : ChunkId}
    (exact : RefcountExact store.disk.tables) (held : id ∈ store.disk.tables.chunks)
    (marked : markOf store.disk.tables.gcMarks id = some markedAt)
    (someWindow : 0 < grace.asMillis) (before : markedAt.toInt < time.toInt)
    (reachable : markedAt.toInt + (graceMillis grace).toInt ≤ 2 ^ 63 - 1) :
    ¬ KeptForBackup blake3 store time grace id := by
  have clamped := toInt_graceMillis grace
  have lower := Int64.le_toInt time
  have upper := Int64.toInt_lt time
  rcases exists_run_to_unreferenced blake3 time exact held with
    ⟨middle, executed, noneLive, unreferenced, marks⟩
  let end_ : Int64 := .ofInt (max time.toInt (markedAt.toInt + (graceMillis grace).toInt))
  have isEnd : end_.toInt = max time.toInt (markedAt.toInt + (graceMillis grace).toInt) :=
    Int64.toInt_ofInt_of_le (by omega) (by omega)
  have window : BackupWindow grace time (deleteAllAt time (listSnapshots store.disk.tables) ++
      [(end_, .gc end_ grace)]) :=
    backupWindow_deleteAllAt_gc _ (by omega) (by omega)
  exact not_keptForBackup_of_sweep executed window noneLive unreferenced (marks ▸ marked)
    (by omega)

/-- A grace period that `i64` cannot hold is cut off, so that a chunk marked
in the window may be swept in the same window. -/
theorem not_keptForBackup_of_clamped_grace {blake3 : Blake3} {store : SharedStore}
    {time : Int64} {grace : Duration} {id : ChunkId}
    (exact : RefcountExact store.disk.tables) (held : id ∈ store.disk.tables.chunks)
    (unmarked : ∀ markedAt, markOf store.disk.tables.gcMarks id = some markedAt →
      markedAt = time)
    (unrepresentable : 2 ^ 63 - 1 < (grace.asMillis : Int)) (notPositive : time.toInt ≤ 0) :
    ¬ KeptForBackup blake3 store time grace id := by
  have clamped : (graceMillis grace).toInt = 2 ^ 63 - 1 := by
    rw [toInt_graceMillis]
    omega
  have lower := Int64.le_toInt time
  rcases exists_run_to_unreferenced blake3 time exact held with
    ⟨middle, executed, noneLive, unreferenced, marks⟩
  rcases run_concat_gc executed time grace with ⟨next, continued, isNext⟩
  have notElapsed : ¬ graceMillis grace ≤ Saturating.signedSub time time := by
    rw [Int64.le_iff_toInt_le, Saturating.toInt_signedSub]
    omega
  have marked : markOf next.disk.tables.gcMarks id = some time := by
    rcases unreferenced with ⟨entry, found, zero⟩
    rw [Option.mem_def] at found
    rw [isNext, markOf_gc]
    simp only [markAfterGc, found, zero, if_true]
    rw [marks]
    cases isMark : markOf store.disk.tables.gcMarks id with
    | none => rfl
    | some markedAt =>
        rw [unmarked markedAt isMark]
        simp [notElapsed]
  have stillUnreferenced : Unreferenced next.disk.tables id := by
    rw [isNext] at marked ⊢
    exact (markOf_gc_eq_some marked).2.2
  have stillNoneLive : ∀ snapshot, snapshot ∉ next.disk.tables.snapshots := by
    rw [isNext]
    exact noneLive
  let end_ : Int64 := .ofInt (time.toInt + (2 ^ 63 - 1))
  have isEnd : end_.toInt = time.toInt + (2 ^ 63 - 1) :=
    Int64.toInt_ofInt_of_le (by omega) (by omega)
  have ordered : time ≤ end_ := by
    rw [Int64.le_iff_toInt_le]
    omega
  have window : BackupWindow grace time (deleteAllAt time (listSnapshots store.disk.tables) ++
      [(time, .gc time grace)] ++ [(end_, .gc end_ grace)]) := by
    refine (backupWindow_deleteAllAt_gc _ (by omega) (by omega)).concat_gc ?_ ordered (by omega)
    intro timed membership
    rcases List.mem_append.mp membership with deletion | isGc
    · rcases List.mem_map.mp deletion with ⟨_, _, rfl⟩
      exact ordered
    · rw [List.mem_singleton.mp isGc]
      exact ordered
  exact not_keptForBackup_of_sweep continued window stillNoneLive stillUnreferenced marked
    (by omega)

/-- The answer that the daemon already holds a chunk protects it for the
backup exactly when the chunk's mark outlasts the window. -/
theorem held_chunk_kept_iff_mark_outlasts_window (blake3 : Blake3) {past : List TimedEvent}
    {store : SharedStore} {time : Int64} {grace : Duration} {id : ChunkId}
    (executed : run (timedStep blake3) .empty past = some store)
    (clocked : ∀ timed ∈ past, Clocked timed) (answered : ∀ timed ∈ past, timed.1 ≤ time)
    (fits : ∀ visit ∈ visits (step blake3) .empty (past.map Prod.snd),
      (liveRefs visit.after.disk.tables).length < 2 ^ 64)
    (held : hasChunk store.disk.tables id = true ∨
      ∃ data, (putChunk blake3 store.disk id data).1 = false) :
    KeptForBackup blake3 store time grace id ↔
      MarkOutlastsWindow store.disk.tables time grace id := by
  have indexed : id ∈ store.disk.tables.chunks := by
    rcases held with present | ⟨data, notStored⟩
    · exact hasChunk_iff.mp present
    · by_contra absent
      simp [putChunk, absent] at notStored
  have exact : RefcountExact store.disk.tables := by
    rw [run_timedStep] at executed
    refine tables_invariant RefcountExact refcountExact_empty ?_ executed
    intro visit visited transaction _ committed before
    have bound := fits visit visited
    rw [← committed] at bound ⊢
    exact before.commit transaction bound
  constructor
  · intro kept
    by_contra expires
    simp only [MarkOutlastsWindow, not_or, not_and_or, not_forall] at expires
    rcases expires with ⟨someWindow, cause⟩
    by_cases old : ∃ markedAt, markOf store.disk.tables.gcMarks id = some markedAt ∧
        markedAt.toInt < time.toInt ∧
        markedAt.toInt + (graceMillis grace).toInt ≤ 2 ^ 63 - 1
    · rcases old with ⟨markedAt, marked, before, reachable⟩
      exact not_keptForBackup_of_old_mark exact indexed marked (by omega) before reachable kept
    · have clamped := toInt_graceMillis grace
      have tooLong : 2 ^ 63 - 1 < (grace.asMillis : Int) ∧ time.toInt ≤ 0 := by
        rcases cause with ⟨markedAt, marked, before, reachable⟩ | tooLong
        · rw [Int64.le_iff_toInt_le] at before
          exact absurd ⟨markedAt, marked, by omega, by omega⟩ old
        · omega
      refine not_keptForBackup_of_clamped_grace exact indexed (fun markedAt marked => ?_)
        tooLong.1 tooLong.2 kept
      have notLater := marks_le_of_run executed clocked answered marked
      rw [Int64.le_iff_toInt_le] at notLater
      apply Int64.toInt_inj.mp
      by_contra different
      exact old ⟨markedAt, marked, by omega, by omega⟩
  · exact keptForBackup_of_mark indexed

/-- A chunk is uploaded, and marked by a gc at the given time. -/
def markedRun (chunk : ChunkId) (time : Int64) : List TimedEvent :=
  [(0, .putChunk chunk []), (time, .gc time (.fromMillis 10))]

theorem chunk_marked_at_answer_is_kept :
    ∃ store, run (timedStep .onEmpty) .empty (markedRun ⟨.replicate 32 7⟩ 5) = some store ∧
      KeptForBackup .onEmpty store 5 (.fromMillis 10) ⟨.replicate 32 7⟩ := by
  have checked : ∃ store,
      run (timedStep .onEmpty) .empty (markedRun ⟨.replicate 32 7⟩ 5) = some store ∧
      hasChunk store.disk.tables ⟨.replicate 32 7⟩ = true ∧
      markOf store.disk.tables.gcMarks ⟨.replicate 32 7⟩ = some 5 :=
    exists_final_of_any (by decide +kernel)
  rcases checked with ⟨store, executed, held, marked⟩
  have outlasts : MarkOutlastsWindow store.disk.tables 5 (.fromMillis 10) ⟨.replicate 32 7⟩ := by
    refine .inr ⟨fun markedAt isMark => .inl ?_, .inl (by decide)⟩
    rw [marked] at isMark
    cases isMark
    exact Int64.le_refl 5
  exact ⟨store, executed, (held_chunk_kept_iff_mark_outlasts_window .onEmpty executed
    (by decide) (by decide) (by decide +kernel) (.inl held)).mpr outlasts⟩

theorem chunk_marked_before_answer_is_lost :
    ∃ store final,
      run (timedStep .onEmpty) .empty (markedRun ⟨.replicate 32 7⟩ 0) = some store ∧
      hasChunk store.disk.tables ⟨.replicate 32 7⟩ = true ∧
      BackupWindow (.fromMillis 10) 5 [(10, .gc 10 (.fromMillis 10))] ∧
      run (timedStep .onEmpty) store [(10, .gc 10 (.fromMillis 10))] = some final ∧
      putSnapshotAs final.disk.tables (.fromParts 5 0) [] [⟨.replicate 32 7⟩] none =
        .error (.unknownChunkRef (.fromParts 5 0) ⟨.replicate 32 7⟩) := by
  have answered : ∃ store,
      run (timedStep .onEmpty) .empty (markedRun ⟨.replicate 32 7⟩ 0) = some store ∧
      hasChunk store.disk.tables ⟨.replicate 32 7⟩ = true :=
    exists_final_of_any (by decide +kernel)
  have refused : ∃ final,
      run (timedStep .onEmpty) .empty
        (markedRun ⟨.replicate 32 7⟩ 0 ++ [(10, .gc 10 (.fromMillis 10))]) = some final ∧
      putSnapshotAs final.disk.tables (.fromParts 5 0) [] [⟨.replicate 32 7⟩] none =
        .error (.unknownChunkRef (.fromParts 5 0) ⟨.replicate 32 7⟩) :=
    exists_final_of_any (by decide +kernel)
  have window : BackupWindow (.fromMillis 10) 5 [(10, .gc 10 (.fromMillis 10))] :=
    ⟨by decide, by decide, by decide⟩
  rcases answered with ⟨store, executed, held⟩
  rcases refused with ⟨final, reached, unknown⟩
  rw [run_append, executed] at reached
  exact ⟨store, final, executed, held, window, reached, unknown⟩

end Busyncr.Daemon
