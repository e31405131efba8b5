import Busyncr.Core.FanOut
import Mathlib.Algebra.BigOperators.Group.List.Basic

/-!
A chunker thread and its channel, whatever the other threads do.

What the reads have delivered, what the reader holds and what the calling
thread has still to send make up the content of the source, in this order.
Every step of the thread keeps it so and uses up a part of its work.
-/

namespace Busyncr

variable {IoError : Type}

section Reader

/-- What one iteration of `read` does. -/
inductive ChannelReader.Iterated (reader : ChannelReader) (len : Nat) :
    ChannelReader → Option Bytes → Prop where
  | copied (block : Bytes) : reader.current = some block → reader.pos < block.length →
      Iterated reader len
        { reader with pos := reader.pos + min len (block.length - reader.pos) }
        (some ((block.drop reader.pos).take (min len (block.length - reader.pos))))
  | cleared (block : Bytes) : reader.current = some block → block.length ≤ reader.pos →
      Iterated reader len { reader with current := none } none
  | received (block : Bytes) (rest : List Bytes) : reader.current = none →
      reader.queue = block :: rest →
      Iterated reader len { reader with queue := rest, current := some block, pos := 0 } none
  | closed : reader.current = none → reader.queue = [] → reader.connected = false →
      Iterated reader len reader (some [])

theorem ChannelReader.iterated {reader next : ChannelReader} {len : Nat} {output : Option Bytes}
    (ran : reader.iterate len = some (next, output)) : reader.Iterated len next output := by
  unfold iterate at ran
  split at ran
  next block held =>
    split at ran
    next within =>
      cases ran
      exact .copied block held within
    next spent =>
      cases ran
      exact .cleared block held (Nat.le_of_not_lt spent)
  next empty =>
    split at ran
    next block rest queued =>
      cases ran
      exact .received block rest empty queued
    next drained =>
      split at ran
      next => cases ran
      next dropped =>
        cases ran
        exact .closed empty drained (by simpa using dropped)

variable {reader next : ChannelReader} {len : Nat} {output : Option Bytes}

theorem ChannelReader.Iterated.connected (iterated : reader.Iterated len next output) :
    next.connected = reader.connected := by
  cases iterated <;> rfl

theorem ChannelReader.Iterated.queue_subset (iterated : reader.Iterated len next output) :
    next.queue ⊆ reader.queue := by
  cases iterated with
  | copied block => exact fun _ listed => listed
  | cleared block => exact fun _ listed => listed
  | received block rest empty queued => exact queued ▸ List.subset_cons_self block rest
  | closed => exact fun _ listed => listed

/-- What is returned is taken off the front of the backlog. -/
theorem ChannelReader.Iterated.backlog (iterated : reader.Iterated len next output) :
    output.getD [] ++ next.backlog = reader.backlog := by
  cases iterated with
  | copied block held within =>
      simp only [ChannelReader.backlog, held, Option.getD_some]
      rw [← List.append_assoc, ← List.drop_drop, List.take_append_drop]
  | cleared block held spent => simp [ChannelReader.backlog, held, List.drop_eq_nil_of_le spent]
  | received block rest empty queued => simp [ChannelReader.backlog, empty, queued]
  | closed empty drained => simp

/-- Only a read at the end of the stream returns nothing. -/
theorem ChannelReader.Iterated.at_end (iterated : reader.Iterated len next output)
    (positive : 0 < len) (nothing : output = some []) :
    reader.backlog = [] ∧ reader.connected = false := by
  cases iterated with
  | copied block held within =>
      have length := congrArg List.length (Option.some.inj nothing)
      simp only [List.length_take, List.length_drop, List.length_nil] at length
      omega
  | cleared => cases nothing
  | received => cases nothing
  | closed empty drained dropped => exact ⟨by simp [ChannelReader.backlog, empty, drained], dropped⟩

end Reader

section Fed

/-- The reads the calling thread has still to make. -/
def MainPhase.unread : MainPhase IoError → List SourceRead
  | .reading left => left.reads
  | .sending _ _ left => left.reads
  | _ => []

/-- The block being sent, for a thread it was not sent to yet. -/
def MainPhase.inHand (index : Nat) : MainPhase IoError → Bytes
  | .sending block next _ => if next ≤ index then block else []
  | _ => []

/-- What the calling thread has still to send to a thread. -/
def MainPhase.unsent (main : MainPhase IoError) (index : Nat) : Bytes :=
  main.inHand index ++ main.unread.flatMap SourceRead.content

/-- The sender of a thread was dropped. -/
def MainPhase.closed (index : Nat) : MainPhase IoError → Bool
  | .reading _ => false
  | .sending _ _ _ => false
  | .closing next => decide (index < next)
  | _ => true

/-- The sequence of chunk identities and lengths of a whole content. -/
def metasOf (cdc : Cdc) (blake3 : Blake3) (content : Bytes) (config : ChunkerConfig) :
    List ChunkMeta :=
  (chunkReader cdc blake3 config content).map Chunk.toMeta

/-- A thread has got, and will get, the content in order; `unsent` and
`closed` are those of the calling thread. -/
structure Worker.Fed (cdc : Cdc) (blake3 : Blake3) (content unsent : Bytes) (closed : Bool)
    (worker : Worker IoError) : Prop where
  connected : worker.reader.connected = !closed
  filled : ∀ block ∈ worker.reader.queue, block ≠ []
  initial : worker.delivered <+: content
  whole : (∀ outcome, worker.phase ≠ .stopped outcome) →
    worker.delivered ++ worker.reader.backlog ++ unsent = content
  positive : ∀ len, worker.phase = .reading len → 0 < len
  ended : worker.ended = true → closed = true ∧ worker.delivered = content
  finished : ∀ chunks, worker.phase = .stopped (.finished chunks) →
    chunks = metasOf cdc blake3 content worker.config

variable {cdc : Cdc} {blake3 : Blake3} {content unsent : Bytes} {closed : Bool}
  {worker next : Worker IoError}

theorem Worker.fed_start (config : ChunkerConfig) (content : Bytes) :
    (Worker.start config : Worker IoError).Fed cdc blake3 content content false where
  connected := rfl
  filled := by simp [Worker.start, ChannelReader.new]
  initial := List.nil_prefix
  whole _ := rfl
  positive len reading := by cases reading
  ended seen := by cases seen
  finished chunks stopped := by cases stopped

/-- One iteration of a read goes on, or returns with some bytes. -/
theorem Worker.iterate_cases (iterated : worker.iterate = some next) :
    ∃ len reader, worker.phase = .reading len ∧
      ((worker.reader.Iterated len reader none ∧ next = { worker with reader := reader }) ∨
        ∃ bytes, worker.reader.Iterated len reader (some bytes) ∧
          next = { worker with
            reader := reader
            delivered := worker.delivered ++ bytes
            ended := worker.ended || bytes.isEmpty
            phase := .chunking }) := by
  unfold Worker.iterate at iterated
  split at iterated
  next len reading =>
    refine ⟨len, ?_⟩
    split at iterated
    next => cases iterated
    next reader ran =>
      cases iterated
      exact ⟨reader, reading, .inl ⟨ChannelReader.iterated ran, rfl⟩⟩
    next reader bytes ran =>
      cases iterated
      exact ⟨reader, reading, .inr ⟨bytes, ChannelReader.iterated ran, rfl⟩⟩
  next => cases iterated

namespace Worker.Fed

theorem call (fed : worker.Fed cdc blake3 content unsent closed) {len : Nat}
    (called : worker.call len = some next) : next.Fed cdc blake3 content unsent closed := by
  unfold Worker.call at called
  split at called
  next chunking =>
    split at called
    next =>
      cases called
      exact fed
    next nonzero =>
      cases called
      refine ⟨fed.connected, fed.filled, fed.initial, fun _ => ?_, ?_, fed.ended, ?_⟩
      · exact fed.whole (by simp [chunking])
      · rintro _ ⟨⟩
        exact Nat.pos_of_ne_zero nonzero
      · rintro _ ⟨⟩
  next => cases called


theorem iterate (fed : worker.Fed cdc blake3 content unsent closed)
    (drained : closed = true → unsent = []) (iterated : worker.iterate = some next) :
    next.Fed cdc blake3 content unsent closed := by
  obtain ⟨len, reader, reading, ⟨ran, rfl⟩ | ⟨bytes, ran, rfl⟩⟩ := Worker.iterate_cases iterated
  · refine ⟨ran.connected.trans fed.connected, ?_, fed.initial, fun live => ?_, fed.positive,
      fed.ended, fed.finished⟩
    · exact fun block listed => fed.filled block (ran.queue_subset listed)
    · have same := ran.backlog
      rw [Option.getD_none, List.nil_append] at same
      simp only [same]
      exact fed.whole live
  · have live : ∀ outcome, worker.phase ≠ .stopped outcome := by simp [reading]
    have together : worker.delivered ++ bytes ++ reader.backlog ++ unsent = content := by
      rw [List.append_assoc worker.delivered, ← fed.whole live, ← ran.backlog, Option.getD_some]
    refine ⟨ran.connected.trans fed.connected, ?_, ?_, fun _ => together, ?_, ?_, ?_⟩
    · exact fun block listed => fed.filled block (ran.queue_subset listed)
    · rw [← together, List.append_assoc]
      exact List.prefix_append _ _
    · rintro _ ⟨⟩
    · intro seen
      rcases Bool.or_eq_true_iff.mp seen with before | nothing
      · obtain ⟨isClosed, all⟩ := fed.ended before
        have rest : bytes ++ (reader.backlog ++ unsent) = [] := by
          rw [all, List.append_assoc, List.append_assoc] at together
          exact List.append_cancel_left (together.trans (List.append_nil content).symm)
        exact ⟨isClosed, by simp [all, (List.append_eq_nil_iff.mp rest).1]⟩
      · obtain rfl := List.isEmpty_iff.mp nothing
        obtain ⟨empty, dropped⟩ := ran.at_end (fed.positive len reading) rfl
        have isClosed : closed = true := by simpa [dropped] using fed.connected
        have all := fed.whole live
        rw [empty, drained isClosed] at all
        exact ⟨isClosed, by simpa using all⟩
    · rintro _ ⟨⟩

theorem finish (fed : worker.Fed cdc blake3 content unsent closed)
    (finished : worker.finish cdc blake3 = some next) :
    next.Fed cdc blake3 content unsent closed := by
  unfold Worker.finish at finished
  split at finished
  next chunking =>
    split at finished
    next seen =>
      cases finished
      refine ⟨fed.connected, fed.filled, fed.initial, ?_, ?_, fed.ended, ?_⟩
      · exact fun live => absurd rfl (live _)
      · rintro _ ⟨⟩
      · rintro _ ⟨⟩
        rw [metasOf, (fed.ended seen).2]
    next => cases finished
  next => cases finished

/-- A chunker that gives up has not finished. -/
theorem stop (fed : worker.Fed cdc blake3 content unsent closed) {outcome : WorkerOutcome IoError}
    (unfinished : ∀ chunks, outcome ≠ .finished chunks) (stopped : worker.stop outcome = some next) :
    next.Fed cdc blake3 content unsent closed := by
  unfold Worker.stop at stopped
  split at stopped
  next chunking =>
    cases stopped
    refine ⟨fed.connected, fed.filled, fed.initial, ?_, ?_, fed.ended, ?_⟩
    · exact fun live => absurd rfl (live _)
    · rintro _ ⟨⟩
    · rintro chunks ⟨⟩
      exact absurd rfl (unfinished chunks)
  next => cases stopped

/-- A block is sent to the thread. -/
theorem receive {block later : Bytes} (fed : worker.Fed cdc blake3 content (block ++ later) closed)
    (nonempty : block ≠ []) (received : worker.receive block = some next) :
    next.Fed cdc blake3 content later closed := by
  unfold Worker.receive at received
  split at received
  next outcome stopped =>
    cases received
    refine ⟨fed.connected, fed.filled, fed.initial, ?_, fed.positive, fed.ended, fed.finished⟩
    exact fun live => absurd stopped (live _)
  next =>
    split at received
    next =>
      cases received
      refine ⟨fed.connected, ?_, fed.initial, fun live => ?_, fed.positive, fed.ended,
        fed.finished⟩
      · intro other listed
        rcases List.mem_append.mp listed with queued | sent
        · exact fed.filled other queued
        · rw [List.mem_singleton.mp sent]
          exact nonempty
      · rw [← fed.whole live]
        simp [ChannelReader.backlog]
    next => cases received

theorem disconnect (fed : worker.Fed cdc blake3 content unsent closed) :
    worker.disconnect.Fed cdc blake3 content unsent true :=
  ⟨rfl, fed.filled, fed.initial, fed.whole, fed.positive, fun seen => ⟨rfl, (fed.ended seen).2⟩,
    fed.finished⟩

end Worker.Fed

end Fed

section Work

/-- What is left of the block in the reader. -/
def ChannelReader.pending (reader : ChannelReader) : Nat :=
  match reader.current with
  | none => 1
  | some block => if reader.pos < block.length then 0 else 2

theorem ChannelReader.pending_le (reader : ChannelReader) : reader.pending ≤ 2 := by
  unfold pending
  split
  next => exact Nat.le_succ 1
  next => split <;> omega

/-- A bound on the steps a thread has still to take, for a content of the given
length. -/
def Worker.work (total : Nat) (worker : Worker IoError) : Nat :=
  match worker.phase with
  | .stopped _ => 0
  | .chunking => (if worker.ended then 1 else 3) + worker.reader.pending +
      4 * (total - worker.delivered.length)
  | .reading _ => 2 + worker.reader.pending + 4 * (total - worker.delivered.length)

/-- A call of `read` that gets nothing: with an empty buffer, or after the end
of the stream. -/
def Worker.idleCall (worker : Worker IoError) (len : Nat) : Bool := decide (len = 0) || worker.ended

variable {cdc : Cdc} {blake3 : Blake3} {content unsent : Bytes} {closed : Bool}
  {worker next : Worker IoError}

theorem Worker.work_call {len : Nat} (called : worker.call len = some next) (total : Nat) :
    next.work total + 1 ≤ worker.work total + if worker.idleCall len then 2 else 0 := by
  unfold Worker.call at called
  split at called
  next chunking =>
    split at called
    next zero =>
      cases called
      simp [Worker.idleCall, zero]
    next nonzero =>
      cases called
      simp only [Worker.work, chunking, Worker.idleCall, nonzero, decide_false, Bool.false_or]
      split <;> omega
  next => cases called

theorem Worker.work_finish (finished : worker.finish cdc blake3 = some next) (total : Nat) :
    next.work total + 1 ≤ worker.work total := by
  unfold Worker.finish at finished
  split at finished
  next chunking =>
    split at finished
    next seen =>
      cases finished
      simp only [Worker.work, chunking, seen, if_true]
      omega
    next => cases finished
  next => cases finished

theorem Worker.work_stop {outcome : WorkerOutcome IoError} (stopped : worker.stop outcome = some next)
    (total : Nat) : next.work total + 1 ≤ worker.work total := by
  unfold Worker.stop at stopped
  split at stopped
  next chunking =>
    cases stopped
    simp only [Worker.work, chunking]
    split <;> omega
  next => cases stopped

theorem Worker.Fed.work_iterate (fed : worker.Fed cdc blake3 content unsent closed)
    (iterated : worker.iterate = some next) :
    next.work content.length + 1 ≤ worker.work content.length := by
  obtain ⟨len, reader, reading, ⟨ran, rfl⟩ | ⟨bytes, ran, rfl⟩⟩ := Worker.iterate_cases iterated
  · simp only [Worker.work, reading]
    cases ran with
    | cleared block held spent =>
        have full : ¬ worker.reader.pos < block.length := Nat.not_lt.mpr spent
        simp only [ChannelReader.pending, held, full, if_false]
        omega
    | received block rest empty queued =>
        have nonempty : block ≠ [] := fed.filled block (by simp [queued])
        have positive : 0 < block.length := List.length_pos_iff.mpr nonempty
        simp only [ChannelReader.pending, empty, positive, if_true]
        omega
  · have positive := fed.positive len reading
    have whole := congrArg List.length (fed.whole (by simp [reading]))
    have taken := congrArg List.length ran.backlog
    have few := reader.pending_le
    simp only [Option.getD_some, List.length_append] at whole taken
    cases ran with
    | copied block held within =>
        have count : ((block.drop worker.reader.pos).take
            (min len (block.length - worker.reader.pos))).length =
              min len (block.length - worker.reader.pos) := by
          rw [List.length_take, List.length_drop]
          omega
        simp only [Worker.work, reading, List.length_append, count] at taken ⊢
        split <;> omega
    | closed =>
        simp only [Worker.work, reading, List.isEmpty_nil, Bool.or_true, if_true, List.append_nil]
        omega

end Work

end Busyncr
