import Busyncr.Core.FanOutReaders

/-!
What a run of the fan-out returns.

Every step keeps all threads fed, and lowers the work that is left unless a
read gets nothing.  So no schedule gets stuck or loses a byte, and what is
returned in the end depends on the content of the source alone.
-/

namespace Busyncr

open Transition

variable {IoError : Type}

section Invariant

/-- The first so many threads were joined, with these results. -/
def Joined (workers : List (Worker IoError)) (count : Nat)
    (perCandidate : List (List ChunkMeta)) (workerErr : Option (ChunkingError IoError)) : Prop :=
  ∃ outcomes : List (WorkerOutcome IoError),
    (workers.take count).map Worker.phase = outcomes.map WorkerPhase.stopped ∧
      perCandidate = outcomes.map WorkerOutcome.chunks ∧
      workerErr = outcomes.findSome? WorkerOutcome.error?

/-- What the calling thread knows about the source and the joined threads. -/
def MainPhase.Tracks (source : Source IoError) (state : FanOutState IoError) : Prop :=
  match state.main with
  | .reading left => left.failure = source.failure ∧ state.readErr = none
  | .sending block _ left =>
      block ≠ [] ∧ left.failure = source.failure ∧ state.readErr = none
  | .closing _ => state.readErr = source.failure
  | .joining index perCandidate workerErr =>
      state.readErr = source.failure ∧ Joined state.workers index perCandidate workerErr
  | .returned result =>
      ∃ perCandidate workerErr,
        Joined state.workers state.workers.length perCandidate workerErr ∧
          result = verdict source.failure workerErr perCandidate state.bytesRead

structure FanOutState.Inv (cdc : Cdc) (blake3 : Blake3) (configs : List ChunkerConfig)
    (source : Source IoError) (state : FanOutState IoError) : Prop where
  configs : state.workers.map Worker.config = configs
  fed : ∀ (index : Nat) (worker : Worker IoError), state.workers[index]? = some worker →
    worker.Fed cdc blake3 source.content (state.main.unsent index) (state.main.closed index)
  counted : state.bytesRead +
    UInt64.ofNat (state.main.unread.flatMap SourceRead.content).length =
      UInt64.ofNat source.content.length
  tracks : MainPhase.Tracks source state

variable {cdc : Cdc} {blake3 : Blake3} {configs : List ChunkerConfig} {source : Source IoError}
  {state next : FanOutState IoError}

theorem FanOutState.inv_start (configs : List ChunkerConfig) (source : Source IoError) :
    (FanOutState.start configs source).Inv cdc blake3 configs source where
  configs := by
    simp only [FanOutState.start, List.map_map]
    exact List.map_id configs
  fed := by
    intro index worker listed
    obtain ⟨config, -, rfl⟩ := List.mem_map.mp (List.mem_of_getElem? listed)
    exact Worker.fed_start config _
  counted := by
    simp [FanOutState.start, MainPhase.unread, Source.content]
  tracks := ⟨rfl, rfl⟩

theorem MainPhase.unsent_of_closed {main : MainPhase IoError} {index : Nat}
    (closed : main.closed index = true) : main.unsent index = [] := by
  cases main with
  | reading left => cases closed
  | sending block next left => cases closed
  | closing next => rfl
  | joining next perCandidate workerErr => rfl
  | returned result => rfl

theorem Joined.of_set {workers : List (Worker IoError)} {count index : Nat}
    {perCandidate : List (List ChunkMeta)} {workerErr : Option (ChunkingError IoError)}
    {worker other : Worker IoError} (joined : Joined workers count perCandidate workerErr)
    (listed : workers[index]? = some worker)
    (live : ∀ outcome, worker.phase ≠ .stopped outcome) :
    Joined (workers.set index other) count perCandidate workerErr := by
  obtain ⟨outcomes, phases, rest⟩ := joined
  refine ⟨outcomes, ?_, rest⟩
  have later : count ≤ index := by
    by_contra earlier
    have inside : (workers.take count)[index]? = some worker := by
      rw [List.getElem?_take_of_lt (by omega), listed]
    have stopped : worker.phase ∈ outcomes.map WorkerPhase.stopped := by
      rw [← phases]
      exact List.mem_map_of_mem (List.mem_of_getElem? inside)
    obtain ⟨outcome, -, same⟩ := List.mem_map.mp stopped
    exact live outcome same.symm
  rw [List.take_set_of_le later, phases]

/-- An action of a thread that keeps it fed. -/
structure Keeps (cdc : Cdc) (blake3 : Blake3)
    (act : Worker IoError → Option (Worker IoError)) : Prop where
  live : ∀ worker outcome, worker.phase = .stopped outcome → act worker = none
  config : ∀ worker next, act worker = some next → next.config = worker.config
  fed : ∀ (worker next : Worker IoError) (content unsent : Bytes) (closed : Bool),
    worker.Fed cdc blake3 content unsent closed → (closed = true → unsent = []) →
      act worker = some next → next.Fed cdc blake3 content unsent closed

theorem keeps_call (len : Nat) :
    Keeps cdc blake3 fun worker : Worker IoError => worker.call len where
  live worker outcome stopped := by simp [Worker.call, stopped]
  config worker next called := by
    unfold Worker.call at called
    grind
  fed worker next content unsent closed fed _ called := fed.call called

theorem keeps_iterate : Keeps cdc blake3 fun worker : Worker IoError => worker.iterate where
  live worker outcome stopped := by simp [Worker.iterate, stopped]
  config worker next iterated := by
    unfold Worker.iterate at iterated
    grind
  fed worker next content unsent closed fed drained iterated := fed.iterate drained iterated

theorem keeps_finish :
    Keeps cdc blake3 fun worker : Worker IoError => worker.finish cdc blake3 where
  live worker outcome stopped := by simp [Worker.finish, stopped]
  config worker next finished := by
    unfold Worker.finish at finished
    grind
  fed worker next content unsent closed fed _ finished := fed.finish finished

theorem keeps_stop {outcome : WorkerOutcome IoError}
    (unfinished : ∀ chunks, outcome ≠ .finished chunks) :
    Keeps cdc blake3 fun worker : Worker IoError => worker.stop outcome where
  live worker outcome stopped := by simp [Worker.stop, stopped]
  config worker next stopped := by
    unfold Worker.stop at stopped
    grind
  fed worker next content unsent closed fed _ stopped := fed.stop unfinished stopped

theorem map_config_set {workers : List (Worker IoError)} {index : Nat}
    {worker other : Worker IoError} (listed : workers[index]? = some worker)
    (same : other.config = worker.config) :
    (workers.set index other).map Worker.config = workers.map Worker.config := by
  obtain ⟨bound, rfl⟩ := List.getElem?_eq_some_iff.mp listed
  rw [List.map_set, same, ← List.getElem_map Worker.config (h := by simpa using bound),
    List.set_getElem_self]

/-- A thread of the list after one was replaced: that one, or another as it
was. -/
theorem getElem?_set_cases {workers : List (Worker IoError)} {index place : Nat}
    {other found : Worker IoError} (read : (workers.set index other)[place]? = some found) :
    place = index ∧ found = other ∨ place ≠ index ∧ workers[place]? = some found := by
  rw [List.getElem?_set] at read
  split at read
  next same =>
    split at read
    next =>
      cases read
      exact .inl ⟨same.symm, rfl⟩
    next => cases read
  next different => exact .inr ⟨Ne.symm different, read⟩

theorem MainPhase.Tracks.of_set (tracks : Tracks source state) {index : Nat}
    {worker other : Worker IoError} (listed : state.workers[index]? = some worker)
    (live : ∀ outcome, worker.phase ≠ .stopped outcome) :
    Tracks source { state with workers := state.workers.set index other } := by
  unfold Tracks at tracks ⊢
  cases phase : state.main with
  | reading left => simpa only [phase] using tracks
  | sending block place left => simpa only [phase] using tracks
  | closing place => simpa only [phase] using tracks
  | joining place perCandidate workerErr =>
      simp only [phase] at tracks
      exact ⟨tracks.1, tracks.2.of_set listed live⟩
  | returned result =>
      simp only [phase] at tracks
      obtain ⟨perCandidate, workerErr, joined, same⟩ := tracks
      refine ⟨perCandidate, workerErr, ?_, same⟩
      rw [List.length_set]
      exact joined.of_set listed live

/-- A step of one thread keeps the invariant. -/
theorem FanOutState.Inv.workerStep (inv : state.Inv cdc blake3 configs source) {index : Nat}
    {act : Worker IoError → Option (Worker IoError)} (keeps : Keeps cdc blake3 act)
    (stepped : state.workerStep index act = some next) : next.Inv cdc blake3 configs source := by
  unfold FanOutState.workerStep at stepped
  split at stepped
  next => cases stepped
  next worker listed =>
    obtain ⟨other, acted, rfl⟩ := Option.map_eq_some_iff.mp stepped
    have live : ∀ outcome, worker.phase ≠ .stopped outcome := by
      intro outcome stopped
      rw [keeps.live worker outcome stopped] at acted
      cases acted
    refine ⟨?_, ?_, inv.counted, inv.tracks.of_set listed live⟩
    · rw [map_config_set listed (keeps.config _ _ acted)]
      exact inv.configs
    · intro place found read
      rcases getElem?_set_cases read with ⟨rfl, rfl⟩ | ⟨-, elsewhere⟩
      · exact keeps.fed _ _ _ _ _ (inv.fed _ _ listed) MainPhase.unsent_of_closed acted
      · exact inv.fed place found elsewhere

/-- What a step of the calling thread does. -/
inductive FanOutState.MainStepped (state : FanOutState IoError) : FanOutState IoError → Prop where
  | readBytes (block : Bytes) (nonempty : block ≠ []) (fits : block.length ≤ fanOutBlockSize)
      (reads : List SourceRead) (failure : Option IoError) :
      state.main = .reading ⟨.bytes block nonempty fits :: reads, failure⟩ →
      MainStepped state { state with
        bytesRead := state.bytesRead + UInt64.ofNat block.length
        main := .sending block 0 ⟨reads, failure⟩ }
  | interrupted (reads : List SourceRead) (failure : Option IoError) :
      state.main = .reading ⟨.interrupted :: reads, failure⟩ →
      MainStepped state { state with main := .reading ⟨reads, failure⟩ }
  | ended (failure : Option IoError) : state.main = .reading ⟨[], failure⟩ →
      MainStepped state { state with readErr := failure, main := .closing 0 }
  | sentAll (block : Bytes) (index : Nat) (left : Source IoError) :
      state.main = .sending block index left → state.workers.length ≤ index →
      MainStepped state { state with main := .reading left }
  | sent (block : Bytes) (index : Nat) (left : Source IoError) (worker other : Worker IoError) :
      state.main = .sending block index left → state.workers[index]? = some worker →
      worker.receive block = some other →
      MainStepped state { state with
        workers := state.workers.set index other
        main := .sending block (index + 1) left }
  | closedAll (index : Nat) : state.main = .closing index → state.workers.length ≤ index →
      MainStepped state { state with main := .joining 0 [] none }
  | closed (index : Nat) (worker : Worker IoError) : state.main = .closing index →
      state.workers[index]? = some worker →
      MainStepped state { state with
        workers := state.workers.set index worker.disconnect
        main := .closing (index + 1) }
  | joinedAll (index : Nat) (perCandidate : List (List ChunkMeta))
      (workerErr : Option (ChunkingError IoError)) :
      state.main = .joining index perCandidate workerErr → state.workers.length ≤ index →
      MainStepped state { state with
        main := .returned (verdict state.readErr workerErr perCandidate state.bytesRead) }
  | joined (index : Nat) (perCandidate : List (List ChunkMeta))
      (workerErr : Option (ChunkingError IoError)) (worker : Worker IoError)
      (outcome : WorkerOutcome IoError) :
      state.main = .joining index perCandidate workerErr → state.workers[index]? = some worker →
      worker.phase = .stopped outcome →
      MainStepped state { state with
        main := .joining (index + 1) (perCandidate ++ [outcome.chunks])
          (workerErr.or outcome.error?) }

theorem FanOutState.mainStepped (stepped : state.mainStep = some next) :
    state.MainStepped next := by
  unfold FanOutState.mainStep at stepped
  split at stepped
  next block nonempty fits reads failure phase =>
    cases stepped
    exact .readBytes block nonempty fits reads failure phase
  next reads failure phase =>
    cases stepped
    exact .interrupted reads failure phase
  next failure phase =>
    cases stepped
    exact .ended failure phase
  next block index left phase =>
    split at stepped
    next none =>
      cases stepped
      exact .sentAll block index left phase (List.getElem?_eq_none_iff.mp none)
    next worker listed =>
      obtain ⟨other, received, rfl⟩ := Option.map_eq_some_iff.mp stepped
      exact .sent block index left worker other phase listed received
  next index phase =>
    split at stepped
    next none =>
      cases stepped
      exact .closedAll index phase (List.getElem?_eq_none_iff.mp none)
    next worker listed =>
      cases stepped
      exact .closed index worker phase listed
  next index perCandidate workerErr phase =>
    split at stepped
    next none =>
      cases stepped
      exact .joinedAll index perCandidate workerErr phase (List.getElem?_eq_none_iff.mp none)
    next worker listed =>
      split at stepped
      next outcome stopped =>
        cases stepped
        exact .joined index perCandidate workerErr worker outcome phase listed stopped
      next => cases stepped
  next => cases stepped

theorem Worker.config_receive {worker other : Worker IoError} {block : Bytes}
    (received : worker.receive block = some other) : other.config = worker.config := by
  unfold Worker.receive at received
  grind

/-- A thread past the one being sent to still waits for the block. -/
theorem MainPhase.unsent_sending {block : Bytes} {index place : Nat} {left : Source IoError} :
    (MainPhase.sending block index left).unsent place =
      (if index ≤ place then block else []) ++ left.content := rfl

/-- A step of the calling thread keeps the invariant. -/
theorem FanOutState.Inv.mainStep (inv : state.Inv cdc blake3 configs source)
    (stepped : state.mainStep = some next) : next.Inv cdc blake3 configs source := by
  obtain ⟨hasConfigs, fed, counted, tracks⟩ := inv
  unfold MainPhase.Tracks at tracks
  cases FanOutState.mainStepped stepped with
  | readBytes block nonempty fits reads failure phase =>
      simp only [phase] at fed counted tracks
      refine ⟨hasConfigs, fed, ?_, nonempty, tracks⟩
      simpa [MainPhase.unread, SourceRead.content, UInt64.add_assoc] using counted
  | interrupted reads failure phase =>
      simp only [phase] at fed counted tracks
      exact ⟨hasConfigs, fed, counted, tracks⟩
  | ended failure phase =>
      simp only [phase] at fed counted tracks
      refine ⟨hasConfigs, fed, counted, tracks.1⟩
  | sentAll block index left phase beyond =>
      simp only [phase] at fed counted tracks
      refine ⟨hasConfigs, fun place worker listed => ?_, counted, tracks.2⟩
      have bound : place < state.workers.length := (List.getElem?_eq_some_iff.mp listed).1
      have before := fed place worker listed
      rw [MainPhase.unsent_sending, if_neg (by omega)] at before
      exact before
  | sent block index left worker other phase listed received =>
      simp only [phase] at fed counted tracks
      refine ⟨?_, fun place found read => ?_, counted, tracks⟩
      · rw [map_config_set listed (Worker.config_receive received)]
        exact hasConfigs
      · rcases getElem?_set_cases read with ⟨rfl, rfl⟩ | ⟨different, elsewhere⟩
        · have before := fed place worker listed
          rw [MainPhase.unsent_sending, if_pos (Nat.le_refl place)] at before
          rw [MainPhase.unsent_sending, if_neg (Nat.not_succ_le_self place)]
          exact before.receive tracks.1 received
        · have before := fed place found elsewhere
          have same : index + 1 ≤ place ↔ index ≤ place := by omega
          simp only [MainPhase.unsent_sending, same] at before ⊢
          exact before
  | closedAll index phase beyond =>
      simp only [phase] at fed counted tracks
      refine ⟨hasConfigs, fun place worker listed => ?_, counted, tracks, [], by simp, rfl, rfl⟩
      have bound : place < state.workers.length := (List.getElem?_eq_some_iff.mp listed).1
      have before := fed place worker listed
      rw [MainPhase.closed, decide_eq_true (by omega)] at before
      exact before
  | closed index worker phase listed =>
      simp only [phase] at fed counted tracks
      refine ⟨?_, fun place found read => ?_, counted, tracks⟩
      · have kept : worker.disconnect.config = worker.config := rfl
        exact (map_config_set listed kept).trans hasConfigs
      · rcases getElem?_set_cases read with ⟨rfl, rfl⟩ | ⟨different, elsewhere⟩
        · rw [MainPhase.closed, decide_eq_true (Nat.lt_succ_self place)]
          exact (fed place worker listed).disconnect
        · have before := fed place found elsewhere
          have same : place < index + 1 ↔ place < index := by omega
          simp only [MainPhase.closed, same] at before ⊢
          exact before
  | joinedAll index perCandidate workerErr phase beyond =>
      simp only [phase] at fed counted tracks
      obtain ⟨failed, joined⟩ := tracks
      refine ⟨hasConfigs, fed, counted, perCandidate, workerErr, ?_, by rw [failed]⟩
      simp only [Joined, List.take_of_length_le beyond] at joined
      simpa only [Joined, List.take_length] using joined
  | joined index perCandidate workerErr worker outcome phase listed stopped =>
      simp only [phase] at fed counted tracks
      obtain ⟨failed, outcomes, phases, rfl, rfl⟩ := tracks
      refine ⟨hasConfigs, fed, counted, failed, outcomes ++ [outcome], ?_, ?_, ?_⟩
      · rw [List.take_add_one, listed, List.map_append, phases, List.map_append]
        simp [stopped]
      · simp
      · simp [List.findSome?_append]

/-- One step keeps the invariant. -/
theorem FanOutState.Inv.step (inv : state.Inv cdc blake3 configs source)
    {action : FanOutAction IoError} (stepped : fanOutStep cdc blake3 state action = some next) :
    next.Inv cdc blake3 configs source := by
  cases action with
  | main => exact inv.mainStep stepped
  | call index len => exact inv.workerStep (keeps_call len) stepped
  | iterate index => exact inv.workerStep keeps_iterate stepped
  | finish index => exact inv.workerStep keeps_finish stepped
  | fail index error => exact inv.workerStep (keeps_stop (by simp)) stepped
  | panic index => exact inv.workerStep (keeps_stop (by simp)) stepped

/-- Every run keeps the invariant. -/
theorem FanOutState.Inv.run (inv : state.Inv cdc blake3 configs source)
    {actions : List (FanOutAction IoError)}
    (executed : Transition.run (fanOutStep cdc blake3) state actions = some next) :
    next.Inv cdc blake3 configs source :=
  run_invariant _ inv (fun _ visited before => before.step (visit_step visited)) executed

end Invariant

section Progress

variable {cdc : Cdc} {blake3 : Blake3} {configs : List ChunkerConfig} {source : Source IoError}
  {state next : FanOutState IoError}

/-- The steps the calling thread has still to take, with so many threads. -/
def MainPhase.work (threads : Nat) : MainPhase IoError → Nat
  | .reading left => left.reads.length * (threads + 2) + 2 * threads + 3
  | .sending _ index left =>
      (threads - index) + 1 + (left.reads.length * (threads + 2) + 2 * threads + 3)
  | .closing index => (threads - index) + 1 + (threads + 1)
  | .joining index _ _ => (threads - index) + 1
  | .returned _ => 0

/-- A bound on the steps a run has still to take. -/
def FanOutState.work (total : Nat) (state : FanOutState IoError) : Nat :=
  state.main.work state.workers.length + (state.workers.map (Worker.work total)).sum

/-- An action that is a call of `read` which gets nothing. -/
def FanOutState.idles (state : FanOutState IoError) : FanOutAction IoError → Bool
  | .call index len => (state.workers[index]?).any fun worker => worker.idleCall len
  | _ => false

/-- What a step is paid for the work it does not lower. -/
def FanOutState.price (state : FanOutState IoError) (action : FanOutAction IoError) : Nat :=
  if state.idles action then 2 else 0

theorem sum_work_set {workers : List (Worker IoError)} {index : Nat} {worker : Worker IoError}
    (listed : workers[index]? = some worker) (other : Worker IoError)
    (weight : Worker IoError → Nat) :
    ((workers.set index other).map weight).sum + weight worker =
      (workers.map weight).sum + weight other := by
  induction workers generalizing index with
  | nil => simp at listed
  | cons head rest inductionHypothesis =>
      cases index with
      | zero =>
          cases listed
          simp
          omega
      | succ index =>
          rw [List.getElem?_cons_succ] at listed
          have tail := inductionHypothesis listed
          simp only [List.set_cons_succ, List.map_cons, List.sum_cons]
          omega

theorem FanOutState.work_workerStep {index total extra : Nat}
    {act : Worker IoError → Option (Worker IoError)}
    (stepped : state.workerStep index act = some next)
    (falls : ∀ worker other, state.workers[index]? = some worker → act worker = some other →
      other.work total + 1 ≤ worker.work total + extra) :
    next.work total + 1 ≤ state.work total + extra := by
  unfold FanOutState.workerStep at stepped
  split at stepped
  next => cases stepped
  next worker listed =>
    obtain ⟨other, acted, rfl⟩ := Option.map_eq_some_iff.mp stepped
    have sum := sum_work_set listed other (Worker.work total)
    have less := falls worker other listed acted
    simp only [FanOutState.work, List.length_set]
    omega

/-- The threads do no work while the calling thread serves them. -/
theorem Worker.work_receive {worker other : Worker IoError} {block : Bytes}
    (received : worker.receive block = some other) (total : Nat) :
    other.work total = worker.work total := by
  unfold Worker.receive at received
  split at received
  next =>
    cases received
    rfl
  next =>
    split at received
    next =>
      cases received
      rfl
    next => cases received

theorem FanOutState.work_mainStep (stepped : state.mainStep = some next) (total : Nat) :
    next.work total + 1 ≤ state.work total := by
  cases FanOutState.mainStepped stepped with
  | readBytes block nonempty fits reads failure phase =>
      simp only [FanOutState.work, phase, MainPhase.work, List.length_cons, Nat.succ_mul]
      omega
  | interrupted reads failure phase =>
      simp only [FanOutState.work, phase, MainPhase.work, List.length_cons, Nat.succ_mul]
      omega
  | ended failure phase =>
      simp only [FanOutState.work, phase, MainPhase.work, List.length_nil, Nat.zero_mul]
      omega
  | sentAll block index left phase beyond =>
      simp only [FanOutState.work, phase, MainPhase.work]
      omega
  | sent block index left worker other phase listed received =>
      have bound : index < state.workers.length := (List.getElem?_eq_some_iff.mp listed).1
      have sum := sum_work_set listed other (Worker.work total)
      have same := Worker.work_receive received total
      simp only [FanOutState.work, phase, MainPhase.work, List.length_set]
      omega
  | closedAll index phase beyond =>
      simp only [FanOutState.work, phase, MainPhase.work]
      omega
  | closed index worker phase listed =>
      have bound : index < state.workers.length := (List.getElem?_eq_some_iff.mp listed).1
      have sum := sum_work_set listed worker.disconnect (Worker.work total)
      have same : worker.disconnect.work total = worker.work total := rfl
      simp only [FanOutState.work, phase, MainPhase.work, List.length_set]
      omega
  | joinedAll index perCandidate workerErr phase beyond =>
      simp only [FanOutState.work, phase, MainPhase.work]
      omega
  | joined index perCandidate workerErr worker outcome phase listed stopped =>
      have bound : index < state.workers.length := (List.getElem?_eq_some_iff.mp listed).1
      simp only [FanOutState.work, phase, MainPhase.work]
      omega

/-- Every step lowers the work, except for reads that get nothing. -/
theorem FanOutState.Inv.work_step (inv : state.Inv cdc blake3 configs source)
    {action : FanOutAction IoError} (stepped : fanOutStep cdc blake3 state action = some next) :
    next.work source.content.length + 1 ≤
      state.work source.content.length + state.price action := by
  cases action with
  | main => exact FanOutState.work_mainStep stepped _
  | call index len =>
      apply FanOutState.work_workerStep stepped
      intro worker other listed called
      simpa [FanOutState.price, FanOutState.idles, listed] using Worker.work_call called _
  | iterate index =>
      apply FanOutState.work_workerStep stepped
      exact fun worker other listed iterated => (inv.fed _ _ listed).work_iterate iterated
  | finish index =>
      apply FanOutState.work_workerStep stepped
      exact fun worker other listed finished => Worker.work_finish finished _
  | fail index error =>
      apply FanOutState.work_workerStep stepped
      exact fun worker other listed stopped => Worker.work_stop stopped _
  | panic index =>
      apply FanOutState.work_workerStep stepped
      exact fun worker other listed stopped => Worker.work_stop stopped _

/-- A step that is not idle and gives nothing up. -/
def FanOutState.Advances (cdc : Cdc) (blake3 : Blake3) (state : FanOutState IoError) : Prop :=
  ∃ action next, action.givesUp = false ∧ state.idles action = false ∧
    fanOutStep cdc blake3 state action = some next

theorem ChannelReader.iterate_isSome {reader : ChannelReader} (len : Nat)
    (ready : reader.queue ≠ [] ∨ reader.connected = false) :
    ∃ next output, reader.iterate len = some (next, output) := by
  unfold ChannelReader.iterate
  split
  next =>
    split
    next => exact ⟨_, _, rfl⟩
    next => exact ⟨_, _, rfl⟩
  next =>
    split
    next => exact ⟨_, _, rfl⟩
    next drained =>
      have dropped := ready.resolve_left (by simp [drained])
      simp [dropped]

/-- A thread with a block in its channel, or cut off from it, can go on. -/
theorem FanOutState.advances_of_ready {index : Nat} {worker : Worker IoError}
    (listed : state.workers[index]? = some worker)
    (live : ∀ outcome, worker.phase ≠ .stopped outcome)
    (ready : worker.reader.queue ≠ [] ∨ worker.reader.connected = false) :
    state.Advances cdc blake3 := by
  cases phase : worker.phase with
  | chunking =>
      cases seen : worker.ended with
      | true =>
          refine ⟨.finish index, ?_⟩
          simp [FanOutAction.givesUp, FanOutState.idles, fanOutStep, FanOutState.workerStep, listed,
            Worker.finish, phase, seen]
      | false =>
          refine ⟨.call index 1, ?_⟩
          simp [FanOutAction.givesUp, FanOutState.idles, fanOutStep, FanOutState.workerStep, listed,
            Worker.call, phase, Worker.idleCall, seen]
  | reading len =>
      obtain ⟨reader, output, ran⟩ := worker.reader.iterate_isSome len ready
      refine ⟨.iterate index, ?_⟩
      cases output with
      | none =>
          simp [FanOutAction.givesUp, FanOutState.idles, fanOutStep, FanOutState.workerStep, listed,
            Worker.iterate, phase, ran]
      | some bytes =>
          simp [FanOutAction.givesUp, FanOutState.idles, fanOutStep, FanOutState.workerStep, listed,
            Worker.iterate, phase, ran]
  | stopped outcome => exact absurd phase (live outcome)

theorem FanOutState.advances_of_main (stepped : ∃ next, state.mainStep = some next) :
    state.Advances cdc blake3 := by
  obtain ⟨next, stepped⟩ := stepped
  exact ⟨.main, next, rfl, rfl, stepped⟩

/-- No schedule gets stuck before the result is there. -/
theorem FanOutState.Inv.advances (inv : state.Inv cdc blake3 configs source) :
    (∃ result, state.main = .returned result) ∨ state.Advances cdc blake3 := by
  cases phase : state.main with
  | reading left =>
      apply Or.inr
      apply FanOutState.advances_of_main
      obtain ⟨reads, failure⟩ := left
      cases reads with
      | nil => simp [FanOutState.mainStep, phase]
      | cons read rest => cases read <;> simp [FanOutState.mainStep, phase]
  | sending block index left =>
      apply Or.inr
      cases listed : state.workers[index]? with
      | none =>
          apply FanOutState.advances_of_main
          simp [FanOutState.mainStep, phase, listed]
      | some worker =>
          by_cases blocked : worker.receive block = none
          · apply FanOutState.advances_of_ready listed
            · intro outcome stopped
              simp [Worker.receive, stopped] at blocked
            · apply Or.inl
              rintro empty
              unfold Worker.receive at blocked
              split at blocked
              next => cases blocked
              next => simp [empty, fanOutChannelDepth] at blocked
          · apply FanOutState.advances_of_main
            obtain ⟨other, received⟩ := Option.ne_none_iff_exists'.mp blocked
            simp [FanOutState.mainStep, phase, listed, received]
  | closing index =>
      apply Or.inr
      apply FanOutState.advances_of_main
      cases listed : state.workers[index]? with
      | none => simp [FanOutState.mainStep, phase, listed]
      | some worker => simp [FanOutState.mainStep, phase, listed]
  | joining index perCandidate workerErr =>
      apply Or.inr
      cases listed : state.workers[index]? with
      | none =>
          apply FanOutState.advances_of_main
          simp [FanOutState.mainStep, phase, listed]
      | some worker =>
          cases threadPhase : worker.phase with
          | stopped outcome =>
              apply FanOutState.advances_of_main
              simp [FanOutState.mainStep, phase, listed, threadPhase]
          | chunking =>
              have fed := inv.fed index worker listed
              refine FanOutState.advances_of_ready listed (by simp [threadPhase]) (.inr ?_)
              simpa [phase, MainPhase.closed] using fed.connected
          | reading len =>
              have fed := inv.fed index worker listed
              refine FanOutState.advances_of_ready listed (by simp [threadPhase]) (.inr ?_)
              simpa [phase, MainPhase.closed] using fed.connected
  | returned result => exact .inl ⟨result, rfl⟩

/-- Every reachable state can be run to a result. -/
theorem FanOutState.Inv.exists_result (inv : state.Inv cdc blake3 configs source) :
    ∃ actions final result,
      Transition.run (fanOutStep cdc blake3) state actions = some final ∧
        final.main = .returned result ∧ ∀ action ∈ actions, action.givesUp = false := by
  have progress : ∀ state : FanOutState IoError, state.Inv cdc blake3 configs source →
      (∃ result, state.main = .returned result) ∨ ∃ action next, action.givesUp = false ∧
        fanOutStep cdc blake3 state action = some next ∧ next.Inv cdc blake3 configs source ∧
          next.work source.content.length < state.work source.content.length := by
    intro state inv
    refine inv.advances.imp_right ?_
    rintro ⟨action, next, quiet, busy, stepped⟩
    have less := inv.work_step stepped
    simp only [FanOutState.price, busy, Bool.false_eq_true, if_false, Nat.add_zero] at less
    exact ⟨action, next, quiet, stepped, inv.step stepped, less⟩
  obtain ⟨actions, final, executed, ⟨result, returned⟩, -, all⟩ := exists_completion _ progress inv
  exact ⟨actions, final, result, executed, returned, all⟩

end Progress

section Results

variable {cdc : Cdc} {blake3 : Blake3} {configs : List ChunkerConfig} {source : Source IoError}
  {state next : FanOutState IoError}

/-- Every stopped thread has finished. -/
def FanOutState.Quiet (state : FanOutState IoError) : Prop :=
  ∀ (index : Nat) (worker : Worker IoError) (outcome : WorkerOutcome IoError),
    state.workers[index]? = some worker → worker.phase = .stopped outcome →
      ∃ chunks, outcome = .finished chunks

theorem FanOutState.Quiet.workerStep (quiet : state.Quiet) {index : Nat}
    {act : Worker IoError → Option (Worker IoError)}
    (finishes : ∀ worker other outcome, act worker = some other →
      other.phase = .stopped outcome → ∃ chunks, outcome = .finished chunks)
    (stepped : state.workerStep index act = some next) : next.Quiet := by
  unfold FanOutState.workerStep at stepped
  split at stepped
  next => cases stepped
  next worker listed =>
    obtain ⟨other, acted, rfl⟩ := Option.map_eq_some_iff.mp stepped
    intro place found outcome read stopped
    rcases getElem?_set_cases read with ⟨rfl, rfl⟩ | ⟨-, elsewhere⟩
    · exact finishes worker found outcome acted stopped
    · exact quiet place found outcome elsewhere stopped

theorem Worker.phase_receive {worker other : Worker IoError} {block : Bytes}
    (received : worker.receive block = some other) : other.phase = worker.phase := by
  unfold Worker.receive at received
  grind

theorem FanOutState.Quiet.mainStep (quiet : state.Quiet) (stepped : state.mainStep = some next) :
    next.Quiet := by
  cases FanOutState.mainStepped stepped with
  | sent block index left worker other phase listed received =>
      intro place found outcome read stopped
      rcases getElem?_set_cases read with ⟨rfl, rfl⟩ | ⟨-, elsewhere⟩
      · rw [Worker.phase_receive received] at stopped
        exact quiet place worker outcome listed stopped
      · exact quiet place found outcome elsewhere stopped
  | closed index worker phase listed =>
      intro place found outcome read stopped
      rcases getElem?_set_cases read with ⟨rfl, rfl⟩ | ⟨-, elsewhere⟩
      · exact quiet place worker outcome listed stopped
      · exact quiet place found outcome elsewhere stopped
  | _ => exact quiet

theorem FanOutState.Quiet.step (quiet : state.Quiet) {action : FanOutAction IoError}
    (kept : action.givesUp = false) (stepped : fanOutStep cdc blake3 state action = some next) :
    next.Quiet := by
  cases action with
  | main => exact quiet.mainStep stepped
  | call index len =>
      refine quiet.workerStep (fun worker other outcome called stopped => ?_) stepped
      unfold Worker.call at called
      grind
  | iterate index =>
      refine quiet.workerStep (fun worker other outcome iterated stopped => ?_) stepped
      obtain ⟨len, reader, reading, ⟨-, rfl⟩ | ⟨bytes, -, rfl⟩⟩ := Worker.iterate_cases iterated
      · simp [reading] at stopped
      · cases stopped
  | finish index =>
      refine quiet.workerStep (fun worker other outcome finished stopped => ?_) stepped
      unfold Worker.finish at finished
      grind
  | fail index error => cases kept
  | panic index => cases kept

theorem FanOutState.quiet_start (configs : List ChunkerConfig) (source : Source IoError) :
    (FanOutState.start configs source).Quiet := by
  intro index worker outcome listed stopped
  obtain ⟨config, -, rfl⟩ := List.mem_map.mp (List.mem_of_getElem? listed)
  cases stopped

/-- The chunk lists of threads that have all finished are those of the whole
content, for every configuration. -/
theorem chunks_of_finished {content : Bytes} {workers : List (Worker IoError)}
    {outcomes : List (WorkerOutcome IoError)}
    (phases : workers.map Worker.phase = outcomes.map WorkerPhase.stopped)
    (exact_ : ∀ worker ∈ workers, ∀ chunks, worker.phase = .stopped (.finished chunks) →
      chunks = metasOf cdc blake3 content worker.config)
    (finished : ∀ outcome ∈ outcomes, ∃ chunks, outcome = .finished chunks) :
    outcomes.map WorkerOutcome.chunks =
      (workers.map Worker.config).map (metasOf cdc blake3 content) := by
  induction workers generalizing outcomes with
  | nil =>
      cases outcomes with
      | nil => rfl
      | cons => cases phases
  | cons worker rest inductionHypothesis =>
      cases outcomes with
      | nil => cases phases
      | cons outcome others =>
          obtain ⟨head, tail⟩ := List.cons.inj phases
          obtain ⟨⟨chunks, rfl⟩, othersFinished⟩ := List.forall_mem_cons.mp finished
          obtain ⟨headExact, restExact⟩ := List.forall_mem_cons.mp exact_
          rw [List.map_cons, List.map_cons, List.map_cons,
            inductionHypothesis tail restExact othersFinished]
          congr 1
          exact headExact chunks head

theorem finished_of_no_error {outcomes : List (WorkerOutcome IoError)}
    (clean : outcomes.findSome? WorkerOutcome.error? = none) :
    ∀ outcome ∈ outcomes, ∃ chunks, outcome = .finished chunks := by
  intro outcome listed
  have none := List.findSome?_eq_none_iff.mp clean outcome listed
  cases outcome with
  | finished chunks => exact ⟨chunks, rfl⟩
  | failed error => cases none
  | panicked => cases none

theorem no_error_of_finished {outcomes : List (WorkerOutcome IoError)}
    (finished : ∀ outcome ∈ outcomes, ∃ chunks, outcome = .finished chunks) :
    outcomes.findSome? WorkerOutcome.error? = none := by
  rw [List.findSome?_eq_none_iff]
  intro outcome listed
  obtain ⟨chunks, rfl⟩ := finished outcome listed
  rfl

/-- The chunks of every candidate and the length, all read from the content. -/
def wholeFanOut (cdc : Cdc) (blake3 : Blake3) (configs : List ChunkerConfig) (content : Bytes) :
    FanOut :=
  ⟨configs.map (metasOf cdc blake3 content), UInt64.ofNat content.length⟩

/-- What a result of the fan-out may be. -/
structure FanOutSound (cdc : Cdc) (blake3 : Blake3) (configs : List ChunkerConfig)
    (source : Source IoError) (quiet : Bool)
    (result : Except (ChunkingError IoError) FanOut) : Prop where
  failed : ∀ error, source.failure = some error → result = .error (.io error)
  standalone : source.failure = none → quiet = true →
    result = .ok (wholeFanOut cdc blake3 configs source.content)
  success : ∀ fan, result = .ok fan →
    source.failure = none ∧ fan = wholeFanOut cdc blake3 configs source.content

theorem FanOutState.Inv.returned (inv : state.Inv cdc blake3 configs source)
    {result : Except (ChunkingError IoError) FanOut} (phase : state.main = .returned result)
    {quiet : Bool} (calm : quiet = true → state.Quiet) :
    FanOutSound cdc blake3 configs source quiet result := by
  obtain ⟨hasConfigs, fed, counted, tracks⟩ := inv
  simp only [MainPhase.Tracks, phase] at tracks
  obtain ⟨_, _, ⟨outcomes, phases, rfl, rfl⟩, rfl⟩ := tracks
  rw [List.take_length] at phases
  have bytes : state.bytesRead = UInt64.ofNat source.content.length := by
    simpa [phase, MainPhase.unread] using counted
  have whole : (∀ outcome ∈ outcomes, ∃ chunks, outcome = .finished chunks) →
      FanOut.mk (outcomes.map WorkerOutcome.chunks) state.bytesRead =
        wholeFanOut cdc blake3 configs source.content := by
    intro finished
    rw [wholeFanOut, ← hasConfigs, bytes]
    congr 1
    apply chunks_of_finished phases _ finished
    intro worker listed
    obtain ⟨index, read⟩ := List.mem_iff_getElem?.mp listed
    exact (fed index worker read).finished
  refine ⟨?_, ?_, ?_⟩
  · intro error failed
    simp [verdict, failed]
  · intro fine isQuiet
    have finished : ∀ outcome ∈ outcomes, ∃ chunks, outcome = .finished chunks := by
      intro outcome listed
      have stopped : WorkerPhase.stopped outcome ∈ state.workers.map Worker.phase :=
        phases ▸ List.mem_map_of_mem listed
      obtain ⟨worker, working, same⟩ := List.mem_map.mp stopped
      obtain ⟨index, read⟩ := List.mem_iff_getElem?.mp working
      exact calm isQuiet index worker outcome read same
    simp only [verdict, fine, no_error_of_finished finished, whole finished]
  · intro fan succeeded
    unfold verdict at succeeded
    split at succeeded
    next => cases succeeded
    next fine =>
      split at succeeded
      next => cases succeeded
      next clean =>
        cases succeeded
        exact ⟨fine, whole (finished_of_no_error clean)⟩

theorem countBytes_eq (total : UInt64) (reads : List SourceRead) (failure : Option IoError) :
    countBytes total reads failure =
      match failure with
      | some error => .error (.io error)
      | none => .ok ⟨[], total + UInt64.ofNat (reads.flatMap SourceRead.content).length⟩ := by
  induction reads generalizing total with
  | nil => cases failure <;> simp [countBytes]
  | cons read rest inductionHypothesis =>
      cases read with
      | bytes block nonempty fits =>
          cases failure <;>
            simp [countBytes, inductionHypothesis, SourceRead.content, UInt64.add_assoc]
      | interrupted => cases failure <;> simp [countBytes, inductionHypothesis, SourceRead.content]

/-- Whatever the schedule, a result comes from the content alone. -/
theorem fanOutReturns_sound {quiet : Bool} {result : Except (ChunkingError IoError) FanOut}
    (returned : FanOutReturns cdc blake3 source configs quiet result) :
    FanOutSound cdc blake3 configs source quiet result := by
  unfold FanOutReturns at returned
  split at returned
  next empty =>
    subst empty
    rw [countBytes_eq] at returned
    subst returned
    cases failure : source.failure with
    | some error =>
        refine ⟨?_, ?_, ?_⟩
        · intro other same
          rw [failure] at same
          cases same
          rfl
        · intro fine
          rw [failure] at fine
          cases fine
        · rintro fan ⟨⟩
    | none =>
        have total : FanOut.mk [] (0 + UInt64.ofNat source.content.length) =
            wholeFanOut cdc blake3 [] source.content := by simp [wholeFanOut]
        refine ⟨?_, ?_, ?_⟩
        · intro other same
          rw [failure] at same
          cases same
        · exact fun _ _ => congrArg Except.ok total
        · rintro fan ⟨⟩
          exact ⟨failure, total⟩
  next =>
    obtain ⟨actions, final, executed, phase, kept⟩ := returned
    have initial : (FanOutState.start configs source).Inv cdc blake3 configs source :=
      FanOutState.inv_start configs source
    have inv := initial.run executed
    refine inv.returned phase fun isQuiet => ?_
    refine run_invariant FanOutState.Quiet (FanOutState.quiet_start configs source) ?_ executed
    intro visit visited before
    exact before.step (kept isQuiet _ (visit_event_mem visited)) (visit_step visited)

/-- The readers, and the end of every schedule. -/
structure FanOutRunsOn (cdc : Cdc) (blake3 : Blake3) (configs : List ChunkerConfig)
    (source : Source IoError) (actions : List (FanOutAction IoError))
    (state : FanOutState IoError) : Prop where
  delivers : ∀ worker ∈ state.workers, worker.delivered <+: source.content
  ended : ∀ worker ∈ state.workers, worker.ended = true → worker.delivered = source.content
  completes : ∃ more final result,
    run (fanOutStep cdc blake3) state more = some final ∧ final.main = .returned result ∧
      ∀ action ∈ more, action.givesUp = false
  bounded : actions.length ≤
    (FanOutState.start configs source).work source.content.length +
      paid (fanOutStep cdc blake3) FanOutState.price (.start configs source) actions

theorem fanOut_runsOn {actions : List (FanOutAction IoError)}
    (executed : run (fanOutStep cdc blake3) (.start configs source) actions = some state) :
    FanOutRunsOn cdc blake3 configs source actions state := by
  have initial : (FanOutState.start configs source).Inv cdc blake3 configs source :=
    FanOutState.inv_start configs source
  have inv := initial.run executed
  refine ⟨?_, ?_, inv.exists_result, ?_⟩
  · intro worker listed
    obtain ⟨index, read⟩ := List.mem_iff_getElem?.mp listed
    exact (inv.fed index worker read).initial
  · intro worker listed seen
    obtain ⟨index, read⟩ := List.mem_iff_getElem?.mp listed
    exact ((inv.fed index worker read).ended seen).2
  · have falls : ∀ visit ∈ visits (fanOutStep cdc blake3) (.start configs source) actions,
        visit.after.work source.content.length + 1 ≤ visit.before.work source.content.length +
          visit.before.price visit.event := by
      intro visit visited
      obtain ⟨before, after, split⟩ := List.append_of_mem visited
      obtain ⟨first, second, -, reached, -⟩ := split_of_visits executed split
      exact (initial.run reached).work_step (visit_step visited)
    have bound := run_length_le executed falls
    omega

/-- A chunker on contents below its minimal size. -/
def wholeCdc : Cdc := fun _ content => if content = [] then [] else [content]

theorem wholeCdc_tiles : wholeCdc.Tiles := by
  intro config content
  unfold wholeCdc
  split
  next empty => rw [empty, List.flatten_nil]
  next => simp

/-- An empty source has no chunks. -/
theorem fanOutReturns_empty (config : ChunkerConfig) :
    FanOutReturns wholeCdc Blake3.onEmpty (⟨[], none⟩ : Source IoError) [config] true
      (.ok ⟨[[]], 0⟩) := by
  unfold FanOutReturns
  rw [if_neg (List.cons_ne_nil _ _)]
  refine ⟨[.main, .main, .main, .call 0 1, .iterate 0, .finish 0, .main, .main], _, rfl, rfl, ?_⟩
  simp [FanOutAction.givesUp]

end Results

end Busyncr
