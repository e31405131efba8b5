import Busyncr.Store.Observations

/-!
What a garbage collection gets rid of.

A chunk is first marked and later reclaimed.  The mark a gc leaves on an
unreferenced chunk stays as long as the chunk does, so that a second gc after
the grace period reclaims it.
-/

namespace Busyncr.Store

open Std

namespace Contents

variable {contents : Contents} {operation : Operation} {id : ChunkId} {time : Int64}

theorem marks_gc {nowMs : Int64} {grace : Duration} :
    (contents.perform (.gc nowMs grace)).2.marks[id]? = some time ↔
      id ∈ (contents.perform (.gc nowMs grace)).2.unreferenced ∧
        time = contents.marks[id]?.getD nowMs := by
  have same : (contents.swept nowMs grace).marks = contents.marks := rfl
  rw [← same]
  exact marked_eq_some_iff

/-- Only a gc changes the marks. -/
theorem marks_perform (notGc : ∀ nowMs grace, operation ≠ .gc nowMs grace) :
    (contents.perform operation).2.marks = contents.marks := by
  cases operation with
  | putChunk put data =>
      simp only [perform]
      split <;> rfl
  | putSnapshotAs put blob refs owner =>
      simp only [perform]
      split
      next => rfl
      next => split <;> rfl
  | deleteSnapshot deleted =>
      simp only [perform]
      split <;> rfl
  | deleteChunk deleted =>
      simp only [perform]
      split
      next => rfl
      next => split <;> rfl
  | prune nowMs policy mode => rfl
  | gc nowMs grace => exact absurd rfl (notGc nowMs grace)

/-- A mark is the time of a gc. -/
theorem exists_gc_of_mark {operations : List Operation}
    (marked : (contentsAfter operations).marks[id]? = some time) :
    ∃ grace, Operation.gc time grace ∈ operations := by
  unfold contentsAfter at marked
  induction operations using List.reverseRecOn with
  | nil => simp [empty] at marked
  | append_singleton operations operation inductionHypothesis =>
      rw [List.foldl_append] at marked
      simp only [List.foldl_cons, List.foldl_nil] at marked
      by_cases isGc : ∃ nowMs grace, operation = .gc nowMs grace
      · obtain ⟨nowMs, grace, rfl⟩ := isGc
        obtain ⟨-, same⟩ := marks_gc.mp marked
        cases before : (operations.foldl (fun contents operation =>
            (contents.perform operation).2) empty).marks[id]? with
        | none =>
            rw [before, Option.getD_none] at same
            exact ⟨grace, by simp [same]⟩
        | some earlier =>
            rw [before, Option.getD_some] at same
            obtain ⟨older, listed⟩ := inductionHypothesis (same ▸ before)
            exact ⟨older, by simp [listed]⟩
      · rw [marks_perform fun nowMs grace same => isGc ⟨nowMs, grace, same⟩] at marked
        obtain ⟨older, listed⟩ := inductionHypothesis marked
        exact ⟨older, by simp [listed]⟩

/-- The mark of a chunk that stays unreferenced stays. -/
theorem mark_perform (marked : contents.marks[id]? = some time)
    (stays : id ∈ (contents.perform operation).2.unreferenced) :
    (contents.perform operation).2.marks[id]? = some time := by
  by_cases isGc : ∃ nowMs grace, operation = .gc nowMs grace
  · obtain ⟨nowMs, grace, rfl⟩ := isGc
    rw [marks_gc, marked]
    exact ⟨stays, rfl⟩
  · rw [marks_perform fun nowMs grace same => isGc ⟨nowMs, grace, same⟩, marked]

end Contents

variable {blake3 : Blake3} {storage : Storage} {disk final : Disk} {contents : Contents}
  {later : List Operation} {id : ChunkId} {time : Int64}

theorem Represents.mem_zeroRefChunks_iff (represents : Represents blake3 disk contents) :
    id ∈ zeroRefChunks disk.tables ↔ id ∈ contents.unreferenced :=
  represents.mem_unreferenced_iff.symm

/-- A run that leaves a chunk unreferenced leaves its mark. -/
theorem Represents.keepsMark (represents : Represents blake3 disk contents)
    (marked : contents.marks[id]? = some time)
    (continued : Transition.run (Store.operate storage blake3) disk later = some final)
    (stays : ∀ visit ∈ Transition.visits (Store.operate storage blake3) disk later,
      id ∈ zeroRefChunks visit.after.tables) :
    ∃ after, Represents blake3 final after ∧ after.marks[id]? = some time ∧
      (id ∈ contents.unreferenced → id ∈ after.unreferenced) := by
  induction later generalizing disk contents with
  | nil =>
      cases continued
      exact ⟨contents, represents, marked, fun unreferenced => unreferenced⟩
  | cons operation rest inductionHypothesis =>
      obtain ⟨next, ran, onward⟩ := Transition.run_cons_eq_some continued
      rw [Transition.visits_cons ran] at stays
      obtain ⟨zeroRef, staysRest⟩ := List.forall_mem_cons.mp stays
      have representsNext := (represents.operate ran).2
      have unreferenced := representsNext.mem_zeroRefChunks_iff.mp zeroRef
      obtain ⟨after, representsAfter, markedAfter, unreferencedAfter⟩ :=
        inductionHypothesis representsNext (Contents.mark_perform marked unreferenced) onward
          staysRest
      exact ⟨after, representsAfter, markedAfter, fun _ => unreferencedAfter unreferenced⟩

/-- A chunk that was marked a grace period ago and is unreferenced is
reclaimed, with its file. -/
theorem Represents.reclaims (represents : Represents blake3 disk contents)
    (unreferenced : id ∈ contents.unreferenced) (marked : contents.marks[id]? = some time)
    {nowMs : Int64} {grace : Duration}
    (elapsed : time.toInt + min (grace.asMillis : Int) (2 ^ 63 - 1) ≤ nowMs.toInt)
    (ran : Store.operate storage blake3 disk (.gc nowMs grace) = some final) :
    id ∈ (Store.gc disk.tables nowMs grace).outcome.reclaimed ∧
      getChunk blake3 final id = .error (.chunkNotFound id) ∧ id ∉ final.objects := by
  have expired : contents.Expired nowMs grace id := ⟨unreferenced, time, marked, elapsed⟩
  have reclaimed : id ∈ (Store.gc disk.tables nowMs grace).outcome.reclaimed := by
    rw [← represents.expired_iff, ← mem_reclaimed_gc_iff] at expired
    exact expired
  have representsFinal := (represents.operate ran).2
  refine ⟨reclaimed, ?_, ?_⟩
  · rw [representsFinal.fetched, Contents.getChunk_eq_error_iff]
    intro kept
    exact (Contents.mem_blobs_swept_iff.mp kept).2 expired
  · rw [operate_ok ran]
    intro filed
    simp [Operation.run, ExtTreeMap.mem_iff_isSome_getElem?, OrderedTable.getElem?_eraseAll,
      reclaimed] at filed

/-- The second of two gcs a grace period apart reclaims what stays
unreferenced. -/
theorem Represents.reclaimed_by_second {before marked waiting : Disk}
    (represents : Represents blake3 before contents) {firstMs lastMs : Int64}
    {firstGrace grace : Duration} {between : List Operation}
    (early : ∀ time ∈ contents.marks[id]?, time ≤ firstMs)
    (first : Store.operate storage blake3 before (.gc firstMs firstGrace) = some marked)
    (unreferenced : id ∈ zeroRefChunks marked.tables)
    (continued : Transition.run (Store.operate storage blake3) marked between = some waiting)
    (stays : ∀ visit ∈ Transition.visits (Store.operate storage blake3) marked between,
      id ∈ zeroRefChunks visit.after.tables)
    (elapsed : firstMs.toInt + min (grace.asMillis : Int) (2 ^ 63 - 1) ≤ lastMs.toInt)
    (last : Store.operate storage blake3 waiting (.gc lastMs grace) = some final) :
    id ∈ (Store.gc waiting.tables lastMs grace).outcome.reclaimed ∧
      getChunk blake3 final id = .error (.chunkNotFound id) ∧ id ∉ final.objects := by
  have representsMarked := (represents.operate first).2
  have isUnreferenced := representsMarked.mem_zeroRefChunks_iff.mp unreferenced
  obtain ⟨time, isMarked, notLater⟩ : ∃ time, (contents.perform
      (.gc firstMs firstGrace)).2.marks[id]? = some time ∧ time.toInt ≤ firstMs.toInt := by
    refine ⟨_, Contents.marks_gc.mpr ⟨isUnreferenced, rfl⟩, ?_⟩
    cases older : contents.marks[id]? with
    | none => simp
    | some time => exact Int64.le_iff_toInt_le.mp (early time older)
  obtain ⟨after, representsWaiting, markedAfter, unreferencedAfter⟩ :=
    representsMarked.keepsMark isMarked continued stays
  apply representsWaiting.reclaims (unreferencedAfter isUnreferenced) markedAfter ?_ last
  omega

/-- In a run whose gcs came no later than this time, marks are no later. -/
theorem mark_le_of_clocked {earlier : List Operation} {firstMs : Int64}
    (clocked : ∀ nowMs waited, Operation.gc nowMs waited ∈ earlier → nowMs ≤ firstMs)
    (time : Int64) (marked : time ∈ (contentsAfter earlier).marks[id]?) : time ≤ firstMs := by
  obtain ⟨waited, listed⟩ := Contents.exists_gc_of_mark marked
  exact clocked time waited listed

/-- Garbage is reclaimed: a chunk that no snapshot refers to from one gc on is
gone after the first gc a grace period later, whatever else the store does in
between. -/
theorem garbage_is_reclaimed (storage : Storage) (blake3 : Blake3)
    (earlier between : List Operation) (firstMs lastMs : Int64) (firstGrace grace : Duration)
    (before marked waiting final : Disk) (id : ChunkId)
    (executed : Transition.run (operate storage blake3) .empty earlier = some before)
    (clocked : ∀ nowMs waited, Operation.gc nowMs waited ∈ earlier → nowMs ≤ firstMs)
    (first : operate storage blake3 before (.gc firstMs firstGrace) = some marked)
    (unreferenced : id ∈ zeroRefChunks marked.tables)
    (continued : Transition.run (operate storage blake3) marked between = some waiting)
    (stays : ∀ visit ∈ Transition.visits (operate storage blake3) marked between,
      id ∈ zeroRefChunks visit.after.tables)
    (elapsed : firstMs.toInt + min (grace.asMillis : Int) (2 ^ 63 - 1) ≤ lastMs.toInt)
    (last : operate storage blake3 waiting (.gc lastMs grace) = some final) :
    id ∈ (gc waiting.tables lastMs grace).outcome.reclaimed ∧
      getChunk blake3 final id = .error (.chunkNotFound id) ∧ id ∉ final.objects :=
  (represents_contentsAfter executed).reclaimed_by_second (mark_le_of_clocked clocked) first
    unreferenced continued stays elapsed last

/-- A grace period of one second. -/
def second : Duration := .fromSecs 1

/-- The chunk a deleted snapshot leaves behind, and a chunk that is uploaded
between the two gcs. -/
def garbageOperations : List Operation :=
  [.putChunk ⟨.replicate 32 4⟩ [1, 2],
    .putSnapshotAs (.fromParts 3 3) [5] [⟨.replicate 32 4⟩] (some "laptop"),
    .deleteSnapshot (.fromParts 3 3)]

def betweenGcs : List Operation := [.putChunk ⟨.replicate 32 5⟩ [3], .gc 1200 second]

theorem garbage_of_a_deleted_snapshot_is_reclaimed :
    ∃ before marked waiting final,
      Transition.run (operate largeStorage .onEmpty) .empty garbageOperations = some before ∧
      operate largeStorage .onEmpty before (.gc 1000 second) = some marked ∧
      Transition.run (operate largeStorage .onEmpty) marked betweenGcs = some waiting ∧
      operate largeStorage .onEmpty waiting (.gc 2000 second) = some final ∧
      ⟨.replicate 32 4⟩ ∈ (gc waiting.tables 2000 second).outcome.reclaimed ∧
      getChunk .onEmpty final ⟨.replicate 32 4⟩ = .error (.chunkNotFound ⟨.replicate 32 4⟩) ∧
      (⟨.replicate 32 4⟩ : ChunkId) ∉ final.objects := by
  have enabled : ((Transition.run (operate largeStorage .onEmpty) .empty garbageOperations).any
      fun before => (operate largeStorage .onEmpty before (.gc 1000 second)).any fun marked =>
        (Transition.run (operate largeStorage .onEmpty) marked betweenGcs).any fun waiting =>
          (operate largeStorage .onEmpty waiting (.gc 2000 second)).isSome &&
            decide (⟨.replicate 32 4⟩ ∈ zeroRefChunks marked.tables) &&
            (Transition.visits (operate largeStorage .onEmpty) marked betweenGcs).all
              fun visit => decide (⟨.replicate 32 4⟩ ∈ zeroRefChunks visit.after.tables)) =
      true := by decide +kernel
  obtain ⟨before, executed, stepOne⟩ := (Option.any_eq_true _ _).mp enabled
  obtain ⟨marked, first, stepTwo⟩ := (Option.any_eq_true _ _).mp stepOne
  obtain ⟨waiting, continued, checked⟩ := (Option.any_eq_true _ _).mp stepTwo
  simp only [Bool.and_eq_true, decide_eq_true_eq, List.all_eq_true] at checked
  obtain ⟨⟨ran, unreferenced⟩, stays⟩ := checked
  obtain ⟨final, last⟩ := Option.isSome_iff_exists.mp ran
  refine ⟨before, marked, waiting, final, executed, first, continued, last, ?_⟩
  apply garbage_is_reclaimed largeStorage .onEmpty garbageOperations betweenGcs 1000 2000 second
    second before marked waiting final ⟨.replicate 32 4⟩ executed ?_ first unreferenced continued
    stays (by decide) last
  intro nowMs waited listed
  simp [garbageOperations] at listed

section Clean

/-- Operations that neither add a chunk nor take a reference away. -/
def Operation.KeepsReferences : Operation → Prop
  | .putSnapshotAs _ _ _ _ => True
  | .gc _ _ => True
  | _ => False

/-- A chunk that is unreferenced after such an operation was so before. -/
theorem Contents.mem_unreferenced_of_perform {operation : Operation}
    (keeps : operation.KeepsReferences)
    (unreferenced : id ∈ (contents.perform operation).2.unreferenced) :
    id ∈ contents.unreferenced := by
  cases operation with
  | putSnapshotAs snapshot blob refs owner =>
      obtain ⟨held, unlisted⟩ := mem_unreferenced_iff.mp unreferenced
      rw [blobs_putSnapshotAs] at held
      refine mem_unreferenced_iff.mpr ⟨held, fun listed => unlisted ?_⟩
      obtain ⟨other, shipped, live, referenced⟩ := mem_references_iff.mp listed
      refine mem_references_iff.mpr ⟨other, shipped, live_perform_of_mem live ?_, referenced⟩
      have before : other ∈ contents.live := by
        simp [ExtTreeMap.mem_iff_isSome_getElem?, live]
      simp only [perform]
      split
      next => exact before
      next =>
        split
        next => exact before
        next => exact ExtTreeMap.mem_insert.mpr (.inr before)
  | gc nowMs grace => exact (mem_unreferenced_swept_iff.mp unreferenced).1
  | putChunk id data => cases keeps
  | deleteSnapshot snapshot => cases keeps
  | deleteChunk id => cases keeps
  | prune nowMs policy mode => cases keeps

/-- A chunk that is unreferenced at the end of such a run was so all along. -/
theorem Represents.unreferenced_throughout (represents : Represents blake3 disk contents)
    (continued : Transition.run (Store.operate storage blake3) disk later = some final)
    (keeps : ∀ operation ∈ later, operation.KeepsReferences)
    (unreferenced : id ∈ zeroRefChunks final.tables) :
    id ∈ zeroRefChunks disk.tables ∧
      ∀ visit ∈ Transition.visits (Store.operate storage blake3) disk later,
        id ∈ zeroRefChunks visit.after.tables := by
  induction later generalizing disk contents with
  | nil =>
      cases continued
      exact ⟨unreferenced, by simp [Transition.visits]⟩
  | cons operation rest inductionHypothesis =>
      obtain ⟨next, ran, onward⟩ := Transition.run_cons_eq_some continued
      obtain ⟨head, tail⟩ := List.forall_mem_cons.mp keeps
      have representsNext := (represents.operate ran).2
      obtain ⟨atNext, throughout⟩ := inductionHypothesis representsNext onward tail
      rw [Transition.visits_cons ran]
      refine ⟨?_, List.forall_mem_cons.mpr ⟨atNext, throughout⟩⟩
      rw [represents.mem_zeroRefChunks_iff]
      rw [representsNext.mem_zeroRefChunks_iff] at atNext
      exact Contents.mem_unreferenced_of_perform head atNext

/-- Two gcs a grace period apart, with nothing uploaded and no reference lost
in between, leave exactly the referenced chunks, in the index and on disk. -/
theorem two_gcs_leave_only_referenced (storage : Storage) (blake3 : Blake3)
    (earlier between : List Operation) (firstMs lastMs : Int64) (firstGrace grace : Duration)
    (final : Disk)
    (executed : Transition.run (operate storage blake3) .empty
      (earlier ++ .gc firstMs firstGrace :: (between ++ [.gc lastMs grace])) = some final)
    (clocked : ∀ nowMs waited, Operation.gc nowMs waited ∈ earlier → nowMs ≤ firstMs)
    (keeps : ∀ operation ∈ between, operation.KeepsReferences)
    (elapsed : firstMs.toInt + min (grace.asMillis : Int) (2 ^ 63 - 1) ≤ lastMs.toInt) :
    zeroRefChunks final.tables = [] ∧
      (∀ id, id ∈ final.tables.chunks ↔ id ∈ liveRefs final.tables) ∧
      ∀ id, id ∈ final.objects ↔ id ∈ liveRefs final.tables := by
  have reads := readsAs_contentsAfter executed
  have represents := represents_contentsAfter executed
  have closed := closed_contentsAfter
    (earlier ++ .gc firstMs firstGrace :: (between ++ [.gc lastMs grace]))
  obtain ⟨before, ranEarlier, onward⟩ := Transition.run_append_eq_some executed
  obtain ⟨marked, first, rest⟩ := Transition.run_cons_eq_some onward
  obtain ⟨waiting, continued, ranLast⟩ := Transition.run_append_eq_some rest
  obtain ⟨last, ran, ended⟩ := Transition.run_cons_eq_some ranLast
  cases ended
  have representsBefore := represents_contentsAfter ranEarlier
  have clean : zeroRefChunks final.tables = [] := by
    rw [List.eq_nil_iff_forall_not_mem]
    intro id remains
    obtain ⟨entry, found, -⟩ := mem_zeroRefChunks_iff.mp remains
    have atWaiting : id ∈ zeroRefChunks waiting.tables := by
      rw [operate_ok ran] at remains
      obtain ⟨entry, stays, zero⟩ := mem_zeroRefChunks_iff.mp remains
      refine mem_zeroRefChunks_iff.mpr ⟨entry, ?_, zero⟩
      simp only [Operation.run] at stays
      rw [chunkEntry_gc] at stays
      split at stays
      next => cases stays
      next => exact stays
    obtain ⟨atMarked, stays⟩ :=
      (representsBefore.operate first).2.unreferenced_throughout continued keeps atWaiting
    obtain ⟨-, gone, -⟩ := representsBefore.reclaimed_by_second (mark_le_of_clocked clocked) first
      atMarked continued stays elapsed ran
    rw [getChunk_eq_chunkNotFound_iff] at gone
    exact gone (mem_chunks_iff_chunkEntry.mpr ⟨entry, found⟩)
  have indexed (id : ChunkId) : id ∈ final.tables.chunks ↔ id ∈ liveRefs final.tables := by
    rw [represents.liveRefs_eq, ← represents.mem_blobs_iff]
    refine ⟨fun held => ?_, closed id⟩
    by_contra unlisted
    have unreferenced := represents.mem_zeroRefChunks_iff.mpr
      (Contents.mem_unreferenced_iff.mpr ⟨held, unlisted⟩)
    simp [clean] at unreferenced
  refine ⟨clean, indexed, fun id => ?_⟩
  rw [← indexed, ← represents.mem_blobs_iff, ExtTreeMap.mem_iff_isSome_getElem?,
    ExtTreeMap.mem_iff_isSome_getElem?, reads.files, Option.isSome_map]

/-- A snapshot is put between the two gcs; the chunk it does not refer to goes. -/
theorem two_gcs_leave_the_referenced_chunk :
    ∃ final, Transition.run (operate largeStorage .onEmpty) .empty
        ([.putChunk ⟨.replicate 32 4⟩ [1, 2], .putChunk ⟨.replicate 32 5⟩ [3]] ++
          .gc 1000 second :: ([.putSnapshotAs (.fromParts 3 3) [5] [⟨.replicate 32 4⟩] none] ++
            [.gc 2000 second])) = some final ∧
      zeroRefChunks final.tables = [] ∧
      (∀ id, id ∈ final.tables.chunks ↔ id ∈ liveRefs final.tables) ∧
      ∀ id, id ∈ final.objects ↔ id ∈ liveRefs final.tables := by
  have enabled : (Transition.run (operate largeStorage .onEmpty) .empty
      ([.putChunk ⟨.replicate 32 4⟩ [1, 2], .putChunk ⟨.replicate 32 5⟩ [3]] ++
        .gc 1000 second :: ([.putSnapshotAs (.fromParts 3 3) [5] [⟨.replicate 32 4⟩] none] ++
          [.gc 2000 second]))).isSome := by decide +kernel
  obtain ⟨final, executed⟩ := Option.isSome_iff_exists.mp enabled
  refine ⟨final, executed, ?_⟩
  apply two_gcs_leave_only_referenced largeStorage .onEmpty
    [.putChunk ⟨.replicate 32 4⟩ [1, 2], .putChunk ⟨.replicate 32 5⟩ [3]]
    [.putSnapshotAs (.fromParts 3 3) [5] [⟨.replicate 32 4⟩] none] 1000 2000 second second final
    executed
  · intro nowMs waited listed
    simp at listed
  · intro operation listed
    obtain rfl := List.mem_singleton.mp listed
    exact trivial
  · decide

end Clean

end Busyncr.Store
