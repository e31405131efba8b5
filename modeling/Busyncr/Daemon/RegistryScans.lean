import Busyncr.Daemon.RegistryFiles

/-!
What a scan of the registry sees while records are being written.

Outside temporary files, the directory always holds the completed records.
But the temporary file of a record has the extension that scans look for, so
a scan that comes upon one reads it like a record.
-/

namespace Busyncr.Daemon.RegistryFiles

open Directory Transition

section Invariant

variable {toml : Toml} {machine next : Machine} {event : Event}

variable (toml) in
/-- Where a write in progress stands. -/
inductive Underway (dir : Dir FileName) (write : Write) : Prop where
  | begun (todo : write.todo = writeRecord toml write.name write.record)
  | created (todo : write.todo = [.write (tmpName write.name) (body toml write.record),
      .rename (tmpName write.name) write.name])
  | written (todo : write.todo = [.rename (tmpName write.name) write.name])
      (content : dir (tmpName write.name) = some (body toml write.record))

variable (toml) in
/-- Apart from temporary files, the directory holds the completed records. -/
structure FilesSound (machine : Machine) : Prop where
  visible : ∀ name, ¬ Temporary name →
    machine.dir name = (machine.installed name).map (body toml)
  named : ∀ name, (machine.dir name).isSome → name ∈ machine.names
  distinct : machine.names.Nodup
  entries : ∀ name, (machine.installed name).isSome → Entry name
  underway : ∀ write, machine.write = some write → Entry write.name ∧
    tmpName write.name ∈ machine.names ∧ write.name ∈ machine.names ∧
    Underway toml machine.dir write

/-- What a process may be doing: it reads and writes only the files of
records, and it has not failed. -/
def ProcessSound (installed : FileName → Option StoredClient) : Process → Prop
  | .scanning _ scan => (∀ name ∈ scan.todo, (installed name).isSome) ∧
      ∀ entry ∈ scan.found, Entry entry.1
  | .writing left => ∀ entry ∈ left, Entry entry.1
  | .failed _ => False
  | .returned _ => True
  | .nameTaken _ => True
  | .dead => True

variable (toml) in
structure Sound (machine : Machine) : Prop where
  files : FilesSound toml machine
  processes : ∀ process state, machine.processes process = some state →
    ProcessSound machine.installed state

theorem sound_init : Sound toml .init := by
  refine ⟨⟨fun _ _ => rfl, nofun, List.nodup_nil, nofun, nofun⟩, ?_⟩
  intro process state found
  cases found

/-- The three file steps of a write, and what each does. -/
theorem underway_cases {process : Nat} {name : FileName} {record : StoredClient}
    {file : FileStep FileName} {rest : List (FileStep FileName)} {dir : Dir FileName}
    (underway : Underway toml dir ⟨process, name, record, file :: rest⟩) :
    (file = .create (tmpName name) ∧ rest = [.write (tmpName name) (body toml record),
      .rename (tmpName name) name]) ∨
    (file = .write (tmpName name) (body toml record) ∧ rest = [.rename (tmpName name) name]) ∨
    (file = .rename (tmpName name) name ∧ rest = [] ∧
      dir (tmpName name) = some (body toml record)) := by
  cases underway with
  | begun todo =>
      obtain ⟨first, remaining⟩ := List.cons.inj todo
      exact .inl ⟨first, remaining⟩
  | created todo =>
      obtain ⟨first, remaining⟩ := List.cons.inj todo
      exact .inr (.inl ⟨first, remaining⟩)
  | written todo content =>
      obtain ⟨first, remaining⟩ := List.cons.inj todo
      exact .inr (.inr ⟨first, remaining, content⟩)

theorem apart_of_permanent {name target : FileName} (permanent : ¬ Temporary name) :
    name ≠ tmpName target := by
  rintro rfl
  exact permanent (temporary_tmpName target)

/-- A change of a temporary file that has a name is not seen. -/
theorem FilesSound.of_tmp (sound : FilesSound toml machine) {target : FileName}
    (known : tmpName target ∈ machine.names) {dir : Dir FileName}
    (elsewhere : ∀ name ≠ tmpName target, dir name = machine.dir name) {write : Option Write}
    (underway : ∀ current, write = some current → Entry current.name ∧
      tmpName current.name ∈ machine.names ∧ current.name ∈ machine.names ∧
      Underway toml dir current) :
    FilesSound toml { machine with dir := dir, write := write } := by
  refine ⟨?_, ?_, sound.distinct, sound.entries, underway⟩
  · intro name permanent
    exact (elsewhere name (apart_of_permanent permanent)).trans (sound.visible name permanent)
  · intro name there
    by_cases same : name = tmpName target
    · exact same ▸ known
    · exact sound.named name (elsewhere name same ▸ there)

theorem FilesSound.advance (sound : FilesSound toml machine) {process : Nat} {name : FileName}
    {record : StoredClient} {file : FileStep FileName} {rest : List (FileStep FileName)}
    (more : rest ≠ [])
    (writing : machine.write = some ⟨process, name, record, file :: rest⟩) :
    FilesSound toml { machine with
      dir := file.apply machine.dir, write := some ⟨process, name, record, rest⟩ } := by
  obtain ⟨entry, tmpKnown, known, underway⟩ := sound.underway _ writing
  rcases underway_cases underway with ⟨rfl, rfl⟩ | ⟨rfl, rfl⟩ | ⟨_, rfl, _⟩
  · refine sound.of_tmp tmpKnown (fun other apart => ?_) ?_
    · simp [apply_create, apart]
    · rintro current ⟨⟩
      exact ⟨entry, tmpKnown, known, .created rfl⟩
  · refine sound.of_tmp tmpKnown (fun other apart => ?_) ?_
    · simp [apply_write, apart]
    · rintro current ⟨⟩
      exact ⟨entry, tmpKnown, known, .written rfl (by simp [apply_write])⟩
  · exact absurd rfl more

theorem FilesSound.install (sound : FilesSound toml machine) {process : Nat} {name : FileName}
    {record : StoredClient} {file : FileStep FileName}
    (writing : machine.write = some ⟨process, name, record, [file]⟩) :
    FilesSound toml { machine with
      dir := file.apply machine.dir
      installed := Function.update machine.installed name (some record)
      write := none } := by
  obtain ⟨entry, tmpKnown, known, underway⟩ := sound.underway _ writing
  rcases underway_cases underway with ⟨_, single⟩ | ⟨_, single⟩ | ⟨rfl, _, content⟩
  · cases single
  · cases single
  · refine ⟨?_, ?_, sound.distinct, ?_, nofun⟩
    · intro other permanent
      simp only [apply_rename _ _ content, apart_of_permanent permanent, if_false,
        Function.update_apply]
      split
      next => rfl
      next => exact sound.visible other permanent
    · intro other there
      simp only [apply_rename _ _ content] at there
      split at there
      next same => exact same ▸ known
      next =>
        split at there
        next => cases there
        next => exact sound.named other there
    · intro other there
      simp only [Function.update_apply] at there
      split at there
      next same => exact same ▸ entry
      next => exact sound.entries other there

theorem FilesSound.crash (sound : FilesSound toml machine) {process : Nat} {name : FileName}
    {record : StoredClient} {file : FileStep FileName} {rest : List (FileStep FileName)}
    (writing : machine.write = some ⟨process, name, record, file :: rest⟩) (written : Nat) :
    FilesSound toml { machine with dir := file.cut machine.dir written, write := none } := by
  obtain ⟨_, tmpKnown, _, underway⟩ := sound.underway _ writing
  refine sound.of_tmp tmpKnown (fun other apart => ?_) nofun
  rcases underway_cases underway with ⟨rfl, _⟩ | ⟨rfl, _⟩ | ⟨rfl, _⟩
  · rfl
  · simp [FileStep.cut, apart]
  · rfl

theorem FilesSound.start (sound : FilesSound toml machine) {process : Nat} {name : FileName}
    {record : StoredClient} (entry : Entry name) :
    FilesSound toml { machine with
      names := (machine.names.insert (tmpName name)).insert name
      write := some ⟨process, name, record, writeRecord toml name record⟩ } := by
  refine ⟨sound.visible, fun other there => ?_, (sound.distinct.insert).insert, sound.entries, ?_⟩
  · exact List.mem_insert_of_mem (List.mem_insert_of_mem (sound.named other there))
  · rintro current ⟨⟩
    exact ⟨entry, List.mem_insert_of_mem List.mem_insert_self, List.mem_insert_self, .begun rfl⟩

/-- The file of an installed record reads back as that record. -/
theorem FilesSound.readEntry_eq (sound : FilesSound toml machine) (inverts : toml.Inverts)
    {name : FileName} (there : (machine.installed name).isSome) :
    ∃ record, machine.installed name = some record ∧
      readEntry toml machine.dir name = .ok (some record) := by
  obtain ⟨record, found⟩ := Option.isSome_iff_exists.mp there
  have entry := sound.entries name there
  have content : machine.dir name = some (body toml record) := by
    rw [sound.visible name entry.permanent, found]
    rfl
  refine ⟨record, found, ?_⟩
  simp only [readEntry, entry.extension, ne_eq, not_true_eq_false, if_false, content, body,
    fromUtf8?_utf8Bytes, inverts record]

theorem ProcessSound.mono {installed later : FileName → Option StoredClient} {state : Process}
    (sound : ProcessSound installed state)
    (kept : ∀ name, (installed name).isSome → (later name).isSome) :
    ProcessSound later state := by
  cases state with
  | scanning purpose scan => exact ⟨fun name listed => kept name (sound.1 name listed), sound.2⟩
  | writing left => exact sound
  | returned found => exact trivial
  | nameTaken name => exact trivial
  | failed error => exact sound
  | dead => exact trivial

theorem processSound_decision {installed : FileName → Option StoredClient} {purpose : Purpose}
    {found : List (FileName × StoredClient)} (entries : ∀ entry ∈ found, Entry entry.1) :
    ProcessSound installed (decision found purpose) := by
  cases purpose with
  | readRegistry => exact trivial
  | enrollClient name digest =>
      simp only [decision]
      split
      next => exact trivial
      next =>
        intro entry listed
        obtain rfl := List.mem_singleton.mp listed
        exact entry_clientPath digest
  | revoke name =>
      intro entry listed
      obtain ⟨old, kept, rfl⟩ := List.mem_map.mp listed
      exact entries old (List.mem_filter.mp kept).1

/-- No temporary file is listed. -/
def Clean : Event → Prop
  | .list _ _ order => ∀ name ∈ order, ¬ Temporary name
  | .notice _ name => ¬ Temporary name
  | _ => True

theorem Sound.setProcess (sound : Sound toml machine) {process : Nat} {state : Process}
    (fit : ProcessSound machine.installed state) :
    Sound toml (machine.setProcess process state) := by
  refine ⟨⟨sound.files.visible, sound.files.named, sound.files.distinct, sound.files.entries,
    sound.files.underway⟩, ?_⟩
  intro other given found
  simp only [Machine.setProcess, Function.update_apply] at found
  split at found
  next =>
    cases found
    exact fit
  next => exact sound.processes other given found

theorem Sound.installed_of_dir (sound : Sound toml machine) {name : FileName}
    (permanent : ¬ Temporary name) (there : (machine.dir name).isSome) :
    (machine.installed name).isSome := by
  rw [sound.files.visible name permanent] at there
  simpa using there

theorem Sound.step (sound : Sound toml machine) (inverts : toml.Inverts)
    (stepped : Stepped toml machine event next) (clean : Clean event) : Sound toml next := by
  cases stepped with
  | listed process purpose order new whole =>
      refine sound.setProcess ⟨fun name listed => ?_, nofun⟩
      have there := (List.mem_filter.mp (whole.mem_iff.mp listed)).2
      exact sound.installed_of_dir (clean name listed) there
  | noticed process purpose scan name scanning there unread unseen =>
      obtain ⟨todo, found⟩ := sound.processes process _ scanning
      refine sound.setProcess ⟨fun other listed => ?_, found⟩
      rcases List.mem_append.mp listed with old | new
      · exact todo other old
      · obtain rfl := List.mem_singleton.mp new
        exact sound.installed_of_dir clean there
  | failed process purpose name rest found error scanning read =>
      obtain ⟨todo, _⟩ := sound.processes process _ scanning
      obtain ⟨record, _, reads⟩ := sound.files.readEntry_eq inverts (todo name (by simp))
      rw [reads] at read
      cases read
  | skipped process purpose name rest found scanning read =>
      obtain ⟨todo, entries⟩ := sound.processes process _ scanning
      exact sound.setProcess ⟨fun other listed => todo other (List.mem_cons_of_mem _ listed),
        entries⟩
  | found process purpose name rest found record scanning read =>
      obtain ⟨todo, entries⟩ := sound.processes process _ scanning
      refine sound.setProcess ⟨fun other listed => todo other (List.mem_cons_of_mem _ listed), ?_⟩
      intro entry listed
      rcases List.mem_append.mp listed with old | new
      · exact entries entry old
      · obtain rfl := List.mem_singleton.mp new
        exact sound.files.entries name (todo name (by simp))
  | decided process purpose found scanning =>
      exact sound.setProcess (processSound_decision (sound.processes process _ scanning).2)
  | started process name record left idle writing =>
      have entries := sound.processes process _ writing
      have settled : Sound toml (machine.setProcess process (.writing left)) :=
        sound.setProcess fun entry listed => entries entry (List.mem_cons_of_mem _ listed)
      exact ⟨settled.files.start (entries (name, record) (by simp)), settled.processes⟩
  | advanced process name record file rest more writing =>
      exact ⟨sound.files.advance more writing, sound.processes⟩
  | installed process name record file writing =>
      refine ⟨sound.files.install writing, fun other state found => ?_⟩
      refine (sound.processes other state found).mono fun known there => ?_
      simp only [Function.update_apply]
      split
      next => rfl
      next => exact there
  | crashed written process name record file rest writing =>
      have settled : Sound toml (machine.setProcess process .dead) := sound.setProcess trivial
      exact ⟨settled.files.crash writing written, settled.processes⟩

end Invariant

section Runs

variable {toml : Toml} {events : List Event} {final machine next : Machine} {event : Event}

theorem sound_of_run (inverts : toml.Inverts)
    (executed : run (step toml) .init events = some final)
    (clean : ∀ event ∈ events, Clean event) : Sound toml final := by
  refine run_invariant (Sound toml) sound_init ?_ executed
  intro visit visited sound
  exact sound.step inverts (stepped_of_step (visit_step visited))
    (clean visit.event (visit_event_mem visited))

abbrev RegistryVisit := Visit Machine Event

/-- The record was installed under the name at one of the visits. -/
def InstalledDuring (visited : List RegistryVisit) (name : FileName) (record : StoredClient) :
    Prop :=
  ∃ visit ∈ visited, visit.before.installed name = some record

theorem InstalledDuring.append {visited more : List RegistryVisit} {name : FileName}
    {record : StoredClient} (during : InstalledDuring visited name record) :
    InstalledDuring (visited ++ more) name record := by
  obtain ⟨visit, listed, installed⟩ := during
  exact ⟨visit, List.mem_append_left _ listed, installed⟩

/-- What a process that listed the directory when `base` was installed has
seen since. -/
def Watched (base : FileName → Option StoredClient) (since : List RegistryVisit) : Process → Prop
  | .scanning _ scan =>
      (scan.todo ++ scan.found.map Prod.fst).Nodup ∧
      (∀ name, (base name).isSome → name ∈ scan.todo ∨ name ∈ scan.found.map Prod.fst) ∧
      ∀ entry ∈ scan.found, InstalledDuring since entry.1 entry.2
  | .nameTaken name => ∃ path record, InstalledDuring since path record ∧ record.name = name ∧
      record.revoked = false
  | _ => True

theorem Watched.append {base : FileName → Option StoredClient} {since more : List RegistryVisit}
    {state : Process} (watched : Watched base since state) :
    Watched base (since ++ more) state := by
  cases state with
  | scanning purpose scan =>
      obtain ⟨distinct, complete, genuine⟩ := watched
      exact ⟨distinct, complete, fun entry listed => (genuine entry listed).append⟩
  | nameTaken name =>
      obtain ⟨path, record, during, active⟩ := watched
      exact ⟨path, record, during.append, active⟩
  | writing left => exact trivial
  | returned found => exact trivial
  | failed error => exact trivial
  | dead => exact trivial

theorem watched_decision {base : FileName → Option StoredClient} {since : List RegistryVisit}
    {purpose : Purpose} {found : List (FileName × StoredClient)}
    (genuine : ∀ entry ∈ found, InstalledDuring since entry.1 entry.2) :
    Watched base since (decision found purpose) := by
  cases purpose with
  | readRegistry => exact trivial
  | enrollClient name digest =>
      simp only [decision]
      split
      next occupied =>
        obtain ⟨entry, listed, active⟩ := List.any_eq_true.mp occupied
        simp only [Bool.and_eq_true, decide_eq_true_eq, Bool.not_eq_true'] at active
        exact ⟨entry.1, entry.2, genuine entry listed, active⟩
      next => exact trivial
  | revoke name => exact trivial

/-- The next state of a process that has begun. -/
inductive ProcessStep (toml : Toml) (machine : Machine) : Process → Process → Prop where
  | same (state : Process) : ProcessStep toml machine state state
  | noticed (purpose : Purpose) (scan : Scan) (name : FileName) (unread : name ∉ scan.todo)
      (unseen : name ∉ scan.found.map Prod.fst) :
      ProcessStep toml machine (.scanning purpose scan)
        (.scanning purpose { scan with todo := scan.todo ++ [name] })
  | failed (state : Process) (error : RegistryError) :
      ProcessStep toml machine state (.failed error)
  | skipped (purpose : Purpose) (name : FileName) (rest : List FileName)
      (found : List (FileName × StoredClient))
      (read : readEntry toml machine.dir name = .ok none) :
      ProcessStep toml machine (.scanning purpose ⟨name :: rest, found⟩)
        (.scanning purpose ⟨rest, found⟩)
  | found (purpose : Purpose) (name : FileName) (rest : List FileName)
      (found : List (FileName × StoredClient)) (record : StoredClient)
      (read : readEntry toml machine.dir name = .ok (some record)) :
      ProcessStep toml machine (.scanning purpose ⟨name :: rest, found⟩)
        (.scanning purpose ⟨rest, found ++ [(name, record)]⟩)
  | decided (purpose : Purpose) (found : List (FileName × StoredClient)) :
      ProcessStep toml machine (.scanning purpose ⟨[], found⟩) (decision found purpose)
  | writing (before left : List (FileName × StoredClient)) :
      ProcessStep toml machine (.writing before) (.writing left)
  | dead (state : Process) : ProcessStep toml machine state .dead

theorem processes_setProcess {process other : Nat} {state : Process} :
    (machine.setProcess process state).processes other =
      if other = process then some state else machine.processes other :=
  Function.update_apply _ _ _ _

theorem processStep_of_stepped (stepped : Stepped toml machine event next) {process : Nat}
    {state : Process} (found : machine.processes process = some state) :
    ∃ after, next.processes process = some after ∧ ProcessStep toml machine state after := by
  have own : ∀ {other : Nat} {before after : Process}, machine.processes other = some before →
      ProcessStep toml machine before after →
      ∃ result, (machine.setProcess other after).processes process = some result ∧
        ProcessStep toml machine state result := by
    intro other before after running taken
    rw [processes_setProcess]
    split
    next same =>
      subst same
      rw [found] at running
      cases running
      exact ⟨after, rfl, taken⟩
    next => exact ⟨state, found, .same state⟩
  cases stepped with
  | listed other purpose order new whole =>
      rw [processes_setProcess]
      split
      next same =>
        rw [← same, found] at new
        cases new
      next => exact ⟨state, found, .same state⟩
  | noticed other purpose scan name scanning there unread unseen =>
      exact own scanning (.noticed purpose scan name unread unseen)
  | failed other purpose name rest records error scanning read =>
      exact own scanning (.failed _ error)
  | skipped other purpose name rest records scanning read =>
      exact own scanning (.skipped purpose name rest records read)
  | found other purpose name rest records record scanning read =>
      exact own scanning (.found purpose name rest records record read)
  | decided other purpose records scanning => exact own scanning (.decided purpose records)
  | started other name record left idle writing => exact own writing (.writing _ left)
  | advanced => exact ⟨state, found, .same state⟩
  | installed => exact ⟨state, found, .same state⟩
  | crashed written other name record file rest writing =>
      rw [show ({ machine.setProcess other .dead with
        dir := file.cut machine.dir written, write := none } : Machine).processes process =
          (machine.setProcess other .dead).processes process from rfl, processes_setProcess]
      split
      next => exact ⟨.dead, rfl, .dead state⟩
      next => exact ⟨state, found, .same state⟩

theorem Watched.step {base : FileName → Option StoredClient} {since : List RegistryVisit}
    {state after : Process} (watched : Watched base since state) (sound : Sound toml machine)
    (inverts : toml.Inverts) (fit : ProcessSound machine.installed state)
    (taken : ProcessStep toml machine state after) :
    Watched base (since ++ [⟨machine, event, next⟩]) after := by
  have reads : ∀ {purpose : Purpose} {name : FileName} {rest : List FileName}
      {found : List (FileName × StoredClient)},
      ProcessSound machine.installed (.scanning purpose ⟨name :: rest, found⟩) →
      ∃ record, machine.installed name = some record ∧
        readEntry toml machine.dir name = .ok (some record) := by
    intro purpose name rest found fit
    exact sound.files.readEntry_eq inverts (fit.1 name (by simp))
  cases taken with
  | same => exact watched.append
  | noticed purpose scan name unread unseen =>
      obtain ⟨distinct, complete, genuine⟩ := watched
      refine ⟨?_, fun other there => ?_, fun entry listed => (genuine entry listed).append⟩
      · rw [List.append_assoc, List.singleton_append, List.perm_middle.nodup_iff]
        refine List.nodup_cons.mpr ⟨fun listed => ?_, distinct⟩
        rcases List.mem_append.mp listed with todo | found
        · exact unread todo
        · exact unseen found
      · rcases complete other there with todo | found
        · exact .inl (List.mem_append_left _ todo)
        · exact .inr found
  | failed => exact trivial
  | skipped purpose name rest found read =>
      obtain ⟨record, _, reads⟩ := reads fit
      rw [reads] at read
      cases read
  | found purpose name rest found record read =>
      obtain ⟨other, installed, reads⟩ := reads fit
      rw [reads] at read
      cases read
      obtain ⟨distinct, complete, genuine⟩ := watched
      refine ⟨?_, fun other there => ?_, fun entry listed => ?_⟩
      · rw [List.map_append, ← List.append_assoc, List.map_singleton,
          (List.perm_append_singleton _ _).nodup_iff]
        exact distinct
      · rcases complete other there with todo | found
        · rcases List.mem_cons.mp todo with rfl | later
          · exact .inr (by simp)
          · exact .inl later
        · exact .inr (by rw [List.map_append]; exact List.mem_append_left _ found)
      · rcases List.mem_append.mp listed with old | new
        · exact (genuine entry old).append
        · obtain rfl := List.mem_singleton.mp new
          exact ⟨_, List.mem_append_right _ (List.mem_singleton_self _), installed⟩
  | decided purpose found =>
      exact watched_decision fun entry listed => (watched.2.2 entry listed).append
  | writing => exact trivial
  | dead => exact trivial

/-- A process that has listed the directory, at the end of a run. -/
theorem watched_of_run (inverts : toml.Inverts)
    (executed : run (step toml) .init events = some final)
    (clean : ∀ event ∈ events, Clean event) {earlier later : List RegistryVisit}
    {visit : RegistryVisit} {process : Nat} {purpose : Purpose} {order : List FileName}
    (split : visits (step toml) .init events = earlier ++ visit :: later)
    (lists : visit.event = .list process purpose order) :
    ∃ state, final.processes process = some state ∧
      Watched visit.before.installed later state := by
  obtain ⟨first, second, rfl, reached, _, onward, rfl⟩ := split_of_visits executed split
  have listed : visit ∈ visits (step toml) .init (first ++ visit.event :: second) := by
    rw [split]
    simp
  have stepped := stepped_of_step (visit_step listed)
  have soundBefore := sound_of_run inverts reached fun event member =>
    clean event (List.mem_append_left _ member)
  have soundAfter := soundBefore.step inverts stepped (clean _ (by simp))
  have start : ∃ state, visit.after.processes process = some state ∧
      Watched visit.before.installed [] state := by
    obtain ⟨before, event, after⟩ := visit
    simp only at lists stepped soundBefore ⊢
    subst lists
    cases stepped with
    | listed _ _ _ new whole =>
        refine ⟨.scanning purpose ⟨order, []⟩, by simp [processes_setProcess], ?_, ?_, nofun⟩
        · simpa using whole.nodup_iff.mpr (soundBefore.files.distinct.filter _)
        · intro name there
          have entry := soundBefore.files.entries name there
          have present : (before.dir name).isSome := by
            rw [soundBefore.files.visible name entry.permanent]
            simpa using there
          exact .inl (whole.mem_iff.mpr
            (List.mem_filter.mpr ⟨soundBefore.files.named name present, present⟩))
  have cleanLater : ∀ event ∈ second, Clean event := by
    intro event member
    exact clean event (List.mem_append_right _ (List.mem_cons_of_mem _ member))
  refine (run_induction (fun events machine => (∀ event ∈ events, Clean event) →
    Sound toml machine ∧ ∃ state, machine.processes process = some state ∧
      Watched visit.before.installed (visits (step toml) visit.after events) state)
    (fun _ => ⟨soundAfter, start⟩) ?_ onward cleanLater).2
  intro events machine event next between held taken cleanHere
  obtain ⟨sound, state, found, watched⟩ :=
    held fun event member => cleanHere event (List.mem_append_left _ member)
  have effect := stepped_of_step taken
  obtain ⟨after, foundAfter, processStep⟩ := processStep_of_stepped effect found
  rw [visits_concat between taken]
  exact ⟨sound.step inverts effect (cleanHere event (by simp)), after, foundAfter,
    watched.step sound inverts (sound.processes process state found) processStep⟩

/-- When no listing comes upon a temporary file, no scan fails; a finished
scan holds one record for each that was installed when it began, and only
records that were installed while it ran; and a name is reported as taken
only if an active client had it then. -/
theorem scans_see_installed_records (inverts : toml.Inverts)
    (executed : run (step toml) .init events = some final)
    (clean : ∀ event ∈ events, Clean event) :
    (∀ process error, final.processes process ≠ some (.failed error)) ∧
    ∀ earlier visit later process purpose order,
      visits (step toml) .init events = earlier ++ visit :: later →
      visit.event = .list process purpose order →
      (∀ wanted found, final.processes process = some (.scanning wanted ⟨[], found⟩) →
        (found.map Prod.fst).Nodup ∧
        (∀ name, (visit.before.installed name).isSome → name ∈ found.map Prod.fst) ∧
        ∀ entry ∈ found, InstalledDuring later entry.1 entry.2) ∧
      ∀ name, final.processes process = some (.nameTaken name) →
        ∃ path record, InstalledDuring later path record ∧ record.name = name ∧
          record.revoked = false := by
  refine ⟨fun process error failed => ?_, ?_⟩
  · exact (sound_of_run inverts executed clean).processes process _ failed
  · intro earlier visit later process purpose order split lists
    obtain ⟨state, found, watched⟩ := watched_of_run inverts executed clean split lists
    refine ⟨fun wanted records finished => ?_, fun name taken => ?_⟩
    · rw [finished] at found
      cases found
      obtain ⟨distinct, complete, genuine⟩ := watched
      refine ⟨by simpa using distinct, fun name there => ?_, genuine⟩
      rcases complete name there with todo | listed
      · cases todo
      · exact listed
    · rw [taken] at found
      cases found
      exact watched

end Runs

section Sample

/-- A basic string without its quotes. -/
def escape (text : List Char) : List Char :=
  text.flatMap fun char => if char = '"' ∨ char = '\\' then ['\\', char] else [char]

/-- A basic string up to its closing quote, and what follows. -/
def unescape : List Char → Option (List Char × List Char)
  | [] => none
  | '"' :: rest => some ([], rest)
  | '\\' :: char :: rest => (unescape rest).map fun read => (char :: read.1, read.2)
  | char :: rest => (unescape rest).map fun read => (char :: read.1, read.2)

theorem unescape_escape (text rest : List Char) :
    unescape (escape text ++ '"' :: rest) = some (text, rest) := by
  induction text with
  | nil => rfl
  | cons char text inductionHypothesis =>
      by_cases special : char = '"' ∨ char = '\\'
      · have escaped : escape (char :: text) = '\\' :: char :: escape text := by
          simp [escape, special]
        simp [escaped, unescape, inductionHypothesis]
      · have plain : escape (char :: text) = char :: escape text := by
          simp [escape, special]
        rw [not_or] at special
        rw [plain, List.cons_append, unescape]
        · simp [inductionHypothesis]
        · exact special.1
        · exact fun _ _ same _ => special.2 same

/-- The text after a key, if it is the one expected. -/
def after (key text : List Char) : Option (List Char) :=
  if key.isPrefixOf text then some (text.drop key.length) else none

theorem after_append (key text : List Char) : after key (key ++ text) = some text := by
  simp [after]

def nameKey : List Char := "name = \"".toList

def fingerprintKey : List Char := "\nfingerprint = \"".toList

def revokedKey : List Char := "\nrevoked = ".toList

def truth (revoked : Bool) : List Char :=
  if revoked then ['t', 'r', 'u', 'e', '\n'] else ['f', 'a', 'l', 's', 'e', '\n']

/-- Records of one-line strings, as the library writes them. -/
def plainToml : Toml where
  toStringPretty record := String.ofList (nameKey ++ (escape record.name.toList ++ '"' ::
    (fingerprintKey ++ (escape record.fingerprint.toList ++ '"' ::
      (revokedKey ++ truth record.revoked)))))
  fromStr text := do
    let rest ← after nameKey text.toList
    let (name, rest) ← unescape rest
    let rest ← after fingerprintKey rest
    let (fingerprint, rest) ← unescape rest
    let rest ← after revokedKey rest
    if rest = truth false then some ⟨String.ofList name, String.ofList fingerprint, false⟩
    else if rest = truth true then some ⟨String.ofList name, String.ofList fingerprint, true⟩
    else none

theorem plainToml_inverts : plainToml.Inverts := by
  rintro ⟨name, fingerprint, revoked⟩
  have apart : truth true ≠ truth false := by decide
  cases revoked with
  | false =>
      simp only [plainToml, String.toList_ofList, after_append, unescape_escape,
        Option.bind_eq_bind, Option.bind_some, String.ofList_toList, if_true]
  | true =>
      simp only [plainToml, String.toList_ofList, after_append, unescape_escape,
        Option.bind_eq_bind, Option.bind_some, String.ofList_toList, if_true, if_neg apart]

def laptopDigest : Vector UInt8 32 := .replicate 32 0xa1

def desktopDigest : Vector UInt8 32 := .replicate 32 0xb2

/-- A client is enrolled, and the registry is read. -/
def enrolledAndRead : List Event :=
  [.list 0 (.enrollClient "laptop" laptopDigest) [], .decide 0, .start 0, .advance, .advance,
    .advance, .list 1 .readRegistry [clientPath (hex laptopDigest.toList)], .read 1]

theorem enrolledAndRead_finds_an_installed_record :
    ∃ final entry later, run (step plainToml) .init enrolledAndRead = some final ∧
      final.processes 1 = some (.scanning .readRegistry ⟨[], [entry]⟩) ∧
      InstalledDuring later entry.1 entry.2 := by
  obtain ⟨final, executed, finished⟩ : ∃ final,
      run (step plainToml) .init enrolledAndRead = some final ∧
        final.processes 1 = some (.scanning .readRegistry ⟨[],
          [(clientPath (hex laptopDigest.toList),
            ⟨"laptop", String.ofList (hex laptopDigest.toList), false⟩)]⟩) :=
    exists_final_of_any (by decide +kernel)
  have clean : ∀ event ∈ enrolledAndRead, Clean event := by
    have permanent : ¬ Temporary (clientPath (hex laptopDigest.toList)) :=
      (entry_clientPath laptopDigest).permanent
    simp [enrolledAndRead, Clean, permanent]
  obtain ⟨visit, listed, lists⟩ : ∃ visit ∈ visits (step plainToml) .init enrolledAndRead,
      visit.event = .list 1 .readRegistry [clientPath (hex laptopDigest.toList)] :=
    exists_visit_of_mem executed (by simp [enrolledAndRead])
  obtain ⟨earlier, later, split⟩ := List.append_of_mem listed
  have seen := ((scans_see_installed_records plainToml_inverts executed clean).2 earlier visit
    later 1 _ _ split lists).1 _ _ finished
  exact ⟨final, _, later, executed, finished, seen.2.2 _ (by simp)⟩

/-- An enrollment dies after it has created its temporary file, and another
client enrolls. -/
def enrollmentAfterCrash : List Event :=
  [.list 0 (.enrollClient "laptop" laptopDigest) [], .decide 0, .start 0, .advance, .crash 0,
    .list 1 (.enrollClient "desktop" desktopDigest) [tmpName (clientPath (hex laptopDigest.toList))],
    .read 1]

/-- The second enrollment fails on the empty file that the first has left. -/
theorem leftover_blocks_enrollment :
    ∃ final, run (step plainToml) .init enrollmentAfterCrash = some final ∧
      final.processes 1 =
        some (.failed (.registryParse (tmpName (clientPath (hex laptopDigest.toList))))) ∧
      final.installed (clientPath (hex laptopDigest.toList)) = none :=
  exists_final_of_any (by decide +kernel)

end Sample

end Busyncr.Daemon.RegistryFiles
