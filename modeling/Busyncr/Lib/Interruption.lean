import Busyncr.Lib.Directory
import Busyncr.Lib.Transition

/-!
A program that replaces files one after another and may be stopped anywhere.

A call looks at the directory, decides which files to replace, and replaces
each through a temporary file.  Stopped in any file step it has replaced the
first few and no part of another, as far as the temporary files do not count.
-/

namespace Interruption

open Directory Transition

/-- Files to be replaced, with their new contents. -/
abbrev Writes (Name : Type*) := List (Name × List UInt8)

variable {Name : Type*} [DecidableEq Name]

/-- The directory once the files are replaced. -/
def overlay (dir : Dir Name) (writes : Writes Name) : Dir Name :=
  writes.foldl (fun current write => Function.update current write.1 (some write.2)) dir

/-- The file steps that replace the files. -/
def replaceAll (tmp : Name → Name) (writes : Writes Name) : List (FileStep Name) :=
  writes.flatMap fun write => writeAtomic (tmp write.1) write.1 write.2

@[simp]
theorem overlay_nil (dir : Dir Name) : overlay dir [] = dir := rfl

@[simp]
theorem overlay_cons (dir : Dir Name) (write : Name × List UInt8) (rest : Writes Name) :
    overlay dir (write :: rest) = overlay (Function.update dir write.1 (some write.2)) rest := rfl

theorem overlay_append (dir : Dir Name) (first second : Writes Name) :
    overlay dir (first ++ second) = overlay (overlay dir first) second :=
  List.foldl_append

theorem overlay_of_not_mem {dir : Dir Name} {writes : Writes Name} {name : Name}
    (unwritten : name ∉ writes.map Prod.fst) : overlay dir writes name = dir name := by
  induction writes generalizing dir with
  | nil => rfl
  | cons write rest inductionHypothesis =>
      rw [List.map_cons, List.mem_cons, not_or] at unwritten
      rw [overlay_cons, inductionHypothesis unwritten.2, Function.update_of_ne unwritten.1]

variable {hidden : Set Name} {tmp : Name → Name}

theorem agrees_overlay {dir other : Dir Name} (agrees : Agrees hidden dir other)
    (writes : Writes Name) : Agrees hidden (overlay dir writes) (overlay other writes) := by
  induction writes generalizing dir other with
  | nil => exact agrees
  | cons write rest inductionHypothesis =>
      apply inductionHypothesis
      intro name visible
      simp only [Function.update_apply]
      split
      next => rfl
      next => exact agrees name visible

section Replacement

variable (hides : ∀ name, tmp name ∈ hidden)

include hides

theorem agrees_writeAtomic (dir : Dir Name) (write : Name × List UInt8) :
    Agrees hidden (execute dir (writeAtomic (tmp write.1) write.1 write.2))
      (Function.update dir write.1 (some write.2)) := by
  intro name visible
  have apart : name ≠ tmp write.1 := fun same => visible (same ▸ hides write.1)
  rw [execute_writeAtomic, Function.update_apply, if_neg apart]

theorem agrees_replaceAll (dir : Dir Name) (writes : Writes Name) :
    Agrees hidden (execute dir (replaceAll tmp writes)) (overlay dir writes) := by
  induction writes generalizing dir with
  | nil => exact .refl dir
  | cons write rest inductionHypothesis =>
      rw [replaceAll, List.flatMap_cons, execute_append]
      exact (inductionHypothesis _).trans (agrees_overlay (agrees_writeAtomic hides dir write) rest)

/-- Stopped between two file steps, the first files are replaced. -/
theorem interrupted_replaceAll {dir : Dir Name} {writes : Writes Name}
    {done rest : List (FileStep Name)} (split : replaceAll tmp writes = done ++ rest) :
    ∃ count, Agrees hidden (execute dir done) (overlay dir (writes.take count)) := by
  induction writes generalizing dir done with
  | nil =>
      obtain ⟨rfl, -⟩ := List.nil_eq_append_iff.mp split
      exact ⟨0, .refl dir⟩
  | cons write others inductionHypothesis =>
      rw [replaceAll, List.flatMap_cons] at split
      rcases List.append_eq_append_iff.mp split with ⟨more, rfl, later⟩ | ⟨more, inside, -⟩
      · obtain ⟨count, agrees⟩ :=
          @inductionHypothesis (execute dir (writeAtomic (tmp write.1) write.1 write.2)) _ later
        refine ⟨count + 1, ?_⟩
        rw [execute_append]
        exact agrees.trans (agrees_overlay (agrees_writeAtomic hides dir write) _)
      · rcases atomic_writeAtomic (hides write.1) write.1 write.2 dir done more inside with
          none | all
        · exact ⟨0, none⟩
        · exact ⟨1, all.trans (agrees_writeAtomic hides dir write)⟩

/-- Only temporary files show how far a cut step came. -/
theorem cut_replaceAll {writes : Writes Name} {next : FileStep Name}
    (planned : next ∈ replaceAll tmp writes) (dir : Dir Name) (written : Nat) :
    Agrees hidden (next.cut dir written) dir := by
  obtain ⟨write, -, inside⟩ := List.mem_flatMap.mp planned
  simp only [writeAtomic, List.mem_cons, List.not_mem_nil, or_false] at inside
  rcases inside with rfl | rfl | rfl
  · exact .refl dir
  · intro name visible
    have apart : name ≠ tmp write.1 := fun same => visible (same ▸ hides write.1)
    simp [FileStep.cut, apart]
  · exact .refl dir

end Replacement

/-- The directory and the file steps the last call has left. -/
structure Machine (Name : Type*) where
  dir : Dir Name
  todo : List (FileStep Name)

def Machine.idle (dir : Dir Name) : Machine Name := ⟨dir, []⟩

inductive Event (Call : Type*) where
  | begin (call : Call)
  | advance
  /-- The call fails or the program dies in the next step, of which a write
  got this far. -/
  | stop (written : Nat)

variable {Call : Type*}

/-- One call after another, by the files each decides to replace. -/
def step (tmp : Name → Name) (plan : Dir Name → Call → Writes Name) (machine : Machine Name) :
    Event Call → Option (Machine Name)
  | .begin call =>
      match machine.todo with
      | [] => some ⟨machine.dir, replaceAll tmp (plan machine.dir call)⟩
      | _ :: _ => none
  | .advance =>
      match machine.todo with
      | [] => none
      | next :: rest => some ⟨next.apply machine.dir, rest⟩
  | .stop written =>
      match machine.todo with
      | [] => some machine
      | next :: _ => some ⟨next.cut machine.dir written, []⟩

variable {plan : Dir Name → Call → Writes Name}

/-- The directory after a call that nothing stops. -/
def perform (tmp : Name → Name) (plan : Dir Name → Call → Writes Name) (dir : Dir Name)
    (call : Call) : Dir Name :=
  execute dir (replaceAll tmp (plan dir call))

theorem run_advances (dir : Dir Name) (todo : List (FileStep Name)) :
    run (step tmp plan) ⟨dir, todo⟩ (List.replicate todo.length .advance) =
      some (.idle (execute dir todo)) := by
  induction todo generalizing dir with
  | nil => rfl
  | cons first rest inductionHypothesis => exact inductionHypothesis (first.apply dir)

/-- A call that nothing stops takes all of its steps. -/
theorem run_perform (dir : Dir Name) (call : Call) :
    run (step tmp plan) (.idle dir)
        (.begin call :: List.replicate (replaceAll tmp (plan dir call)).length .advance) =
      some (.idle (perform tmp plan dir call)) :=
  run_advances dir (replaceAll tmp (plan dir call))

/-- What holds of a directory however many files of a call are replaced. -/
structure Sustained (hidden : Set Name) (plan : Dir Name → Call → Writes Name)
    (property : Dir Name → Prop) : Prop where
  visible : ∀ {dir other}, Agrees hidden dir other → property other → property dir
  kept : ∀ {dir}, property dir → ∀ call count,
    property (overlay dir ((plan dir call).take count))

/-- The machine is at rest or has taken some steps of a call. -/
inductive Within (tmp : Name → Name) (plan : Dir Name → Call → Writes Name)
    (property : Dir Name → Prop) : Machine Name → Prop where
  | resting {dir} : property dir → Within tmp plan property (.idle dir)
  | calling {base call done todo} : property base →
      replaceAll tmp (plan base call) = done ++ todo →
      Within tmp plan property ⟨execute base done, todo⟩

variable {property : Dir Name → Prop}

theorem Within.sound {machine : Machine Name} (hides : ∀ name, tmp name ∈ hidden)
    (sustained : Sustained hidden plan property) (within : Within tmp plan property machine) :
    property machine.dir := by
  cases within with
  | resting holds => exact holds
  | calling holds split =>
      obtain ⟨count, agrees⟩ := interrupted_replaceAll hides split
      exact sustained.visible agrees (sustained.kept holds _ count)

theorem Within.step {machine next : Machine Name} {event : Event Call}
    (hides : ∀ name, tmp name ∈ hidden) (sustained : Sustained hidden plan property)
    (within : Within tmp plan property machine)
    (stepped : Interruption.step tmp plan machine event = some next) :
    Within tmp plan property next := by
  have holds := within.sound hides sustained
  cases event with
  | begin call =>
      simp only [Interruption.step] at stepped
      split at stepped
      next =>
        cases stepped
        have untouched : replaceAll tmp (plan machine.dir call) =
            [] ++ replaceAll tmp (plan machine.dir call) := rfl
        exact .calling holds untouched
      next => cases stepped
  | advance =>
      cases within with
      | resting => cases stepped
      | @calling base call done todo started split =>
          cases todo with
          | nil => cases stepped
          | cons first rest =>
              cases stepped
              have taken : first.apply (execute base done) = execute base (done ++ [first]) := by
                rw [execute_append]
                rfl
              rw [taken]
              exact .calling started (by rw [split, List.append_assoc]; rfl)
  | stop written =>
      cases within with
      | resting =>
          cases stepped
          exact .resting holds
      | @calling base call done todo started split =>
          cases todo with
          | nil =>
              cases stepped
              exact .calling started split
          | cons first rest =>
              cases stepped
              apply Within.resting
              apply sustained.visible ?_ holds
              apply cut_replaceAll hides
              rw [split]
              exact List.mem_append_right done List.mem_cons_self

/-- A sustained property holds in every run, wherever its calls are
stopped. -/
theorem Sustained.run {start : Dir Name} {events : List (Event Call)} {final : Machine Name}
    (hides : ∀ name, tmp name ∈ hidden) (sustained : Sustained hidden plan property)
    (holds : property start)
    (executed : Transition.run (Interruption.step tmp plan) (.idle start) events = some final) :
    property final.dir := by
  apply Within.sound hides sustained
  refine run_invariant (Within tmp plan property) (.resting holds) ?_ executed
  intro visit visited within
  exact within.step hides sustained (visit_step visited)

end Interruption
