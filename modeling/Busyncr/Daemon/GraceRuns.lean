import Busyncr.Daemon.Interleaving
import Busyncr.Store.Marks

/-!
The grace period over whole runs.

Events carry the time at which they happen, and a gc reads the clock: its
`now` is its time.  `MarkedSince` says what a mark stands for as long as no
transaction restarts a timer under it: since the gc that set the mark, the
chunk has been unreferenced in every state.
-/

namespace Busyncr.Daemon

open Std Store Transition

/-- An event and the time, in milliseconds, at which it happens. -/
abbrev TimedEvent := Int64 × Event

def timedStep (blake3 : Blake3) (store : SharedStore) (timed : TimedEvent) :
    Option SharedStore :=
  step blake3 store timed.2

/-- Without its times a timed run is a run. -/
theorem run_timedStep (blake3 : Blake3) (store : SharedStore) (events : List TimedEvent) :
    run (timedStep blake3) store events = run (step blake3) store (events.map Prod.snd) := by
  induction events generalizing store with
  | nil => rfl
  | cons timed rest inductionHypothesis =>
      simp only [run, List.map_cons, timedStep]
      cases step blake3 store timed.2 with
      | none => rfl
      | some next => exact inductionHypothesis next

/-- The instant and grace period of a gc. -/
def Event.gcCall : Event → Option (Int64 × Duration)
  | .gc nowMs grace => some (nowMs, grace)
  | _ => none

def Event.deletesChunk : Event → Bool
  | .deleteChunk _ => true
  | _ => false

/-- A gc runs at the time it is given. -/
def Clocked (timed : TimedEvent) : Prop := ∀ call ∈ timed.2.gcCall, call.1 = timed.1

instance (timed : TimedEvent) : Decidable (Clocked timed) :=
  inferInstanceAs (Decidable (∀ call ∈ timed.2.gcCall, _))

/-- The event's transaction leaves no marked chunk newly unreferenced. -/
def KeepsTimers (store : SharedStore) (timed : TimedEvent) : Prop :=
  ∀ transaction ∈ transaction? store timed.2, ¬ RestartsTimer store.disk.tables transaction

instance (store : SharedStore) (timed : TimedEvent) : Decidable (KeepsTimers store timed) :=
  inferInstanceAs (Decidable (∀ transaction ∈ transaction? store timed.2, _))

/-- The chunk has been unreferenced in every state since the last event of
`before`, which happened at `time`. -/
def MarkedSince (blake3 : Blake3) (events : List TimedEvent) (id : ChunkId) (time : Int64) :
    Prop :=
  ∃ before last after, events = before ++ last :: after ∧ last.1 = time ∧
    ∀ early late middle, after = early ++ late →
      run (timedStep blake3) .empty (before ++ last :: early) = some middle →
        Unreferenced middle.disk.tables id

/-- Every mark on an unreferenced chunk was set at the start of its present
unreferenced period, or later. -/
def TimersContinuous (blake3 : Blake3) (events : List TimedEvent) (store : SharedStore) : Prop :=
  ∀ id time, markOf store.disk.tables.gcMarks id = some time →
    Unreferenced store.disk.tables id → MarkedSince blake3 events id time

theorem MarkedSince.concat {blake3 : Blake3} {events : List TimedEvent} {id : ChunkId}
    {time : Int64} {timed : TimedEvent} {next : SharedStore}
    (marked : MarkedSince blake3 events id time)
    (executed : run (timedStep blake3) .empty (events ++ [timed]) = some next)
    (unreferenced : Unreferenced next.disk.tables id) :
    MarkedSince blake3 (events ++ [timed]) id time := by
  rcases marked with ⟨before, last, after, rfl, atTime, continuous⟩
  refine ⟨before, last, after ++ [timed], by simp, atTime, fun early late middle split reached => ?_⟩
  rcases List.eq_nil_or_concat late with empty | ⟨shorter, final, isConcat⟩
  · subst empty
    rw [List.append_nil] at split
    subst split
    have same : before ++ last :: (after ++ [timed]) = (before ++ last :: after) ++ [timed] := by
      simp
    rw [same, executed] at reached
    cases reached
    exact unreferenced
  · subst isConcat
    have shorterSplit : after = early ++ shorter := by
      rw [List.concat_eq_append, ← List.append_assoc] at split
      exact (List.append_inj' split rfl).1
    exact continuous early shorter middle shorterSplit reached

/-- One step keeps the timers continuous unless it restarts one. -/
theorem TimersContinuous.step {blake3 : Blake3} {events : List TimedEvent}
    {store next : SharedStore} {timed : TimedEvent}
    (continuous : TimersContinuous blake3 events store)
    (executed : run (timedStep blake3) .empty events = some store)
    (stepped : timedStep blake3 store timed = some next) (clocked : Clocked timed)
    (keeps : KeepsTimers store timed) :
    TimersContinuous blake3 (events ++ [timed]) next := by
  intro id time marked unreferenced
  have extended : run (timedStep blake3) .empty (events ++ [timed]) = some next := by
    rw [run_concat, executed]
    exact stepped
  have changed := tables_step stepped
  cases ran : transaction? store timed.2 with
  | none =>
      simp only [ran] at changed
      have before := continuous id time (changed ▸ marked) (changed ▸ unreferenced)
      exact before.concat extended unreferenced
  | some transaction =>
      simp only [ran] at changed
      rw [changed] at marked
      by_cases isGc : ∃ nowMs grace, transaction = .gc nowMs grace
      · rcases isGc with ⟨nowMs, grace, rfl⟩
        rcases markOf_gc_eq_some marked with ⟨kept | ⟨_, setNow⟩, wasUnreferenced, _⟩
        · exact (continuous id time kept wasUnreferenced).concat extended unreferenced
        · refine ⟨events, timed, [], rfl, ?_, fun early late middle split reached => ?_⟩
          · have atTime : nowMs = timed.1 := clocked (nowMs, grace) (by
              rw [event_of_gc ran]
              rfl)
            rw [setNow, atTime]
          · rcases List.append_eq_nil_iff.mp split.symm with ⟨rfl, _⟩
            rw [extended] at reached
            cases reached
            exact unreferenced
      · have notGc : ∀ nowMs grace, transaction ≠ .gc nowMs grace :=
          fun nowMs grace same => isGc ⟨nowMs, grace, same⟩
        rw [gcMarks_commit notGc] at marked
        have wasUnreferenced : Unreferenced store.disk.tables id := by
          refine unreferenced_of_commit notGc (keeps transaction ran) ?_ (changed ▸ unreferenced)
          exact mem_marks_iff_markOf.mpr ⟨time, marked⟩
        exact (continuous id time marked wasUnreferenced).concat extended unreferenced

theorem timersContinuous_of_run {blake3 : Blake3} {events : List TimedEvent}
    {final : SharedStore} (executed : run (timedStep blake3) .empty events = some final)
    (clocked : ∀ timed ∈ events, Clocked timed)
    (keeps : ∀ visit ∈ visits (timedStep blake3) .empty events,
      KeepsTimers visit.before visit.event) :
    TimersContinuous blake3 events final := by
  have initial : TimersContinuous blake3 [] .empty := by
    intro id time marked
    simp [SharedStore.empty, Disk.empty, Tables.empty, markOf] at marked
  revert clocked keeps
  refine run_induction (fun events final => (∀ timed ∈ events, Clocked timed) →
    (∀ visit ∈ visits (timedStep blake3) .empty events, KeepsTimers visit.before visit.event) →
      TimersContinuous blake3 events final) (fun _ _ => initial) ?_ executed
  intro earlier middle timed next reached inductionHypothesis stepped clocked keeps
  rw [visits_concat reached stepped] at keeps
  refine TimersContinuous.step ?_ reached stepped (clocked timed (by simp))
    (keeps ⟨middle, timed, next⟩ (by simp))
  refine inductionHypothesis (fun other membership => ?_) fun visit visited => ?_
  · exact clocked other (List.mem_append_left _ membership)
  · exact keeps visit (List.mem_append_left _ visited)

/-- The chunk is unreferenced at every moment from `nowMs - grace` on: in the
state in force at that moment, and in every later one. -/
def UnreferencedThroughout (blake3 : Blake3) (events : List TimedEvent) (id : ChunkId)
    (nowMs : Int64) (grace : Duration) : Prop :=
  ∀ early late middle, events = early ++ late →
    (∀ timed ∈ late, nowMs.toInt - grace.asMillis < timed.1.toInt) →
      run (timedStep blake3) .empty early = some middle → Unreferenced middle.disk.tables id

theorem MarkedSince.throughout {blake3 : Blake3} {events : List TimedEvent} {id : ChunkId}
    {time nowMs : Int64} {grace : Duration} (marked : MarkedSince blake3 events id time)
    (elapsed : time.toInt ≤ nowMs.toInt - grace.asMillis) :
    UnreferencedThroughout blake3 events id nowMs grace := by
  rcases marked with ⟨before, last, after, rfl, rfl, continuous⟩
  intro early late middle split recent reached
  have regrouped : (before ++ [last]) ++ after = early ++ late := by simpa using split
  rcases List.append_eq_append_iff.mp regrouped with ⟨more, rfl, isAfter⟩ | ⟨more, isBefore, rfl⟩
  · refine continuous more late middle isAfter ?_
    simpa using reached
  · rcases List.eq_nil_or_concat more with rfl | ⟨shorter, final, rfl⟩
    · refine continuous [] after middle rfl ?_
      rw [List.append_nil] at isBefore
      rwa [isBefore]
    · rw [List.concat_eq_append, ← List.append_assoc] at isBefore
      have isLast : last = final := by simpa using (List.append_inj' isBefore rfl).2
      have tooRecent := recent last (by simp [isLast])
      omega

/-- In a run in which no deletion drops the last reference to a marked chunk
and no upload indexes a marked chunk anew, a gc with a representable grace
period reclaims a chunk only after it was continuously unreferenced for that
period. -/
theorem reclaimed_only_after_continuous_grace (blake3 : Blake3) {events : List TimedEvent}
    {final : SharedStore} (executed : run (timedStep blake3) .empty events = some final)
    (clocked : ∀ timed ∈ events, Clocked timed)
    (keeps : ∀ visit ∈ visits (timedStep blake3) .empty events,
      KeepsTimers visit.before visit.event)
    (nowMs : Int64) (grace : Duration) (representable : (grace.asMillis : Int) ≤ 2 ^ 63 - 1)
    (id : ChunkId) (reclaimed : id ∈ (gc final.disk.tables nowMs grace).reclaimed.map Prod.fst) :
    UnreferencedThroughout blake3 events id nowMs grace := by
  rcases (mem_reclaimed_gc_iff _ _ _ _).mp reclaimed with
    ⟨entry, markedAt, found, unreferenced, marked, elapsed⟩
  have continuous := timersContinuous_of_run executed clocked keeps id markedAt marked
    ⟨entry, found, unreferenced⟩
  refine continuous.throughout ?_
  have clamped : (graceMillis grace).toInt = grace.asMillis := by
    rw [toInt_graceMillis]
    omega
  rw [Int64.le_iff_toInt_le, Saturating.le_toInt_signedSub_iff (by omega) (by omega),
    clamped] at elapsed
  omega

/-- Reference a chunk, drop the reference and then mark the chunk. -/
def releasedRun (chunk : ChunkId) (snapshot : Ulid) : List TimedEvent :=
  [(0, .putChunk chunk []), (1, .putSnapshotAs snapshot [] [chunk] none),
    (2, .deleteSnapshot snapshot), (2, .gc 2 (.fromMillis 10))]

theorem released_chunk_is_reclaimed_after_grace :
    ∃ final,
      run (timedStep .onEmpty) .empty (releasedRun ⟨.replicate 32 7⟩ (.fromParts 1 0)) =
        some final ∧
      ⟨.replicate 32 7⟩ ∈ (gc final.disk.tables 12 (.fromMillis 10)).reclaimed.map Prod.fst ∧
      UnreferencedThroughout .onEmpty (releasedRun ⟨.replicate 32 7⟩ (.fromParts 1 0))
        ⟨.replicate 32 7⟩ 12 (.fromMillis 10) := by
  have checked : ∃ final,
      run (timedStep .onEmpty) .empty (releasedRun ⟨.replicate 32 7⟩ (.fromParts 1 0)) =
        some final ∧
      ⟨.replicate 32 7⟩ ∈ (gc final.disk.tables 12 (.fromMillis 10)).reclaimed.map Prod.fst :=
    exists_final_of_any (by decide +kernel)
  rcases checked with ⟨final, executed, reclaimed⟩
  exact ⟨final, executed, reclaimed, reclaimed_only_after_continuous_grace .onEmpty executed
    (by decide) (by decide +kernel) 12 (.fromMillis 10) (by decide) _ reclaimed⟩

/-- Mark a chunk, take a reference to it and drop that reference again. -/
def borrowedRun (chunk : ChunkId) (snapshot : Ulid) : List TimedEvent :=
  [(0, .putChunk chunk []), (0, .gc 0 (.fromMillis 10)),
    (3, .putSnapshotAs snapshot [] [chunk] none), (7, .deleteSnapshot snapshot)]

theorem borrowed_chunk_is_reclaimed_too_early :
    ∃ final,
      run (timedStep .onEmpty) .empty (borrowedRun ⟨.replicate 32 7⟩ (.fromParts 1 0)) =
        some final ∧
      ⟨.replicate 32 7⟩ ∈ (gc final.disk.tables 10 (.fromMillis 10)).reclaimed.map Prod.fst ∧
      ¬ UnreferencedThroughout .onEmpty (borrowedRun ⟨.replicate 32 7⟩ (.fromParts 1 0))
        ⟨.replicate 32 7⟩ 10 (.fromMillis 10) := by
  have checked : ∃ final,
      run (timedStep .onEmpty) .empty (borrowedRun ⟨.replicate 32 7⟩ (.fromParts 1 0)) =
        some final ∧
      ⟨.replicate 32 7⟩ ∈ (gc final.disk.tables 10 (.fromMillis 10)).reclaimed.map Prod.fst :=
    exists_final_of_any (by decide +kernel)
  have referenced : ∃ middle,
      run (timedStep .onEmpty) .empty
        ((borrowedRun ⟨.replicate 32 7⟩ (.fromParts 1 0)).take 3) = some middle ∧
      ¬ Unreferenced middle.disk.tables ⟨.replicate 32 7⟩ :=
    exists_final_of_any (by decide +kernel)
  rcases checked with ⟨final, executed, reclaimed⟩
  rcases referenced with ⟨middle, reached, isReferenced⟩
  refine ⟨final, executed, reclaimed, fun throughout => isReferenced ?_⟩
  exact throughout _ _ middle (List.take_append_drop 3 _).symm (by decide) reached

end Busyncr.Daemon
