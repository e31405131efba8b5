import Busyncr.Client.KeyFiles

/-!
What any sequence of key imports and enrollments leaves in the state
directory, wherever its calls are stopped.

Every planned step is `Safe` where it is taken: it moves a live key into a
free slot or puts a key where none is live.  From this follows that no key is
lost.  Which keys are live together is followed through the prefixes of a
plan.
-/

namespace Busyncr.Client.KeyFiles

open Directory Transition

section Steps

/-- The steps that can lose no key. -/
inductive Safe (dir : StateDir) : KeyStep → Prop where
  | create (name : KeyName) : Safe dir (.create (.tmp name))
  | write (name : KeyName) (bytes : Bytes) : Safe dir (.write (.tmp name) bytes)
  | install (name : KeyName) (vacant : dir (.live name) = none) :
      Safe dir (.rename (.tmp name) (.live name))
  | backUp (name : KeyName) (slot : Nat) (free : dir (.old name slot) = none)
      (pairFree : name = .data → dir (.old .chunkId slot) = none) :
      Safe dir (.rename (.live name) (.old name slot))

/-- Every step is safe where it is taken. -/
def SafeSteps : StateDir → List KeyStep → Prop
  | _, [] => True
  | dir, step :: rest => Safe dir step ∧ SafeSteps (step.apply dir) rest

theorem safeSteps_append {dir : StateDir} {first second : List KeyStep}
    (safeFirst : SafeSteps dir first) (safeSecond : SafeSteps (execute dir first) second) :
    SafeSteps dir (first ++ second) := by
  induction first generalizing dir with
  | nil => exact safeSecond
  | cons step rest inductionHypothesis =>
      exact ⟨safeFirst.1, inductionHypothesis safeFirst.2 safeSecond⟩

/-- The content is live under the name or kept in one of its slots. -/
def Recorded (dir : StateDir) (name : KeyName) (content : Bytes) : Prop :=
  dir (.live name) = some content ∨ ∃ slot, dir (.old name slot) = some content

theorem Safe.old_kept {dir : StateDir} {step : KeyStep} (safe : Safe dir step) {name : KeyName}
    {slot : Nat} {content : Bytes} (kept : dir (.old name slot) = some content) :
    step.apply dir (.old name slot) = some content := by
  cases safe with
  | create other => simpa [apply_create] using kept
  | write other bytes => simpa [apply_write] using kept
  | install other vacant =>
      cases found : dir (.tmp other) with
      | none => rwa [apply_rename_of_absent _ found]
      | some moved => simpa [apply_rename _ _ found] using kept
  | backUp other taken free pairFree =>
      cases found : dir (.live other) with
      | none => rwa [apply_rename_of_absent _ found]
      | some moved =>
          have different : ¬ (KeyFile.old name slot = .old other taken) := by
            intro same
            rw [same, free] at kept
            cases kept
          simpa [apply_rename _ _ found, different] using kept

theorem Safe.recorded_kept {dir : StateDir} {step : KeyStep} (safe : Safe dir step)
    {name : KeyName} {content : Bytes} (recorded : Recorded dir name content) :
    Recorded (step.apply dir) name content := by
  rcases recorded with live | ⟨slot, kept⟩
  · cases safe with
    | create other => exact .inl (by simpa [apply_create] using live)
    | write other bytes => exact .inl (by simpa [apply_write] using live)
    | install other vacant =>
        cases found : dir (.tmp other) with
        | none => exact .inl (by rwa [apply_rename_of_absent _ found])
        | some moved =>
            have different : name ≠ other := by
              rintro rfl
              rw [vacant] at live
              cases live
            exact .inl (by simpa [apply_rename _ _ found, different] using live)
    | backUp other slot free pairFree =>
        by_cases same : name = other
        · subst same
          exact .inr ⟨slot, by simp [apply_rename _ _ live]⟩
        · cases found : dir (.live other) with
          | none => exact .inl (by rwa [apply_rename_of_absent _ found])
          | some moved => exact .inl (by simpa [apply_rename _ _ found, same] using live)
  · exact .inr ⟨slot, safe.old_kept kept⟩

/-- The temporary files. -/
def temporaries : Set KeyFile := Set.range KeyFile.tmp

@[simp]
theorem live_notMem_temporaries (name : KeyName) : KeyFile.live name ∉ temporaries := nofun

@[simp]
theorem old_notMem_temporaries (name : KeyName) (slot : Nat) :
    KeyFile.old name slot ∉ temporaries := nofun

/-- A safe step that is cut off changes at most a temporary file. -/
theorem Safe.cut_agrees {dir : StateDir} {step : KeyStep} (safe : Safe dir step) (written : Nat) :
    Agrees temporaries (step.cut dir written) dir := by
  cases safe with
  | create name => exact .refl dir
  | write name bytes =>
      intro file visible
      have different : file ≠ .tmp name := by
        rintro rfl
        exact visible (Set.mem_range_self name)
      simp [FileStep.cut, different]
  | install name vacant => exact .refl dir
  | backUp name slot free pairFree => exact .refl dir

end Steps

section Plans

variable (dir : StateDir)

theorem safeSteps_writeKey {name : KeyName} (key : RawKey) (vacant : dir (.live name) = none) :
    SafeSteps dir (writeKey name key) := by
  refine ⟨.create name, .write name _, .install name ?_, trivial⟩
  simp [apply_write, apply_create, vacant]

theorem safeSteps_backUp {slot : Nat} {name : KeyName} (free : dir (.old name slot) = none)
    (pairFree : name = .data → dir (.old .chunkId slot) = none) :
    SafeSteps dir (backUp dir slot name) := by
  unfold backUp
  split
  next => exact ⟨.backUp name slot free pairFree, trivial⟩
  next => exact trivial

theorem execute_writeKey (name : KeyName) (key : RawKey) (file : KeyFile) :
    execute dir (writeKey name key) file =
      if file = .live name then some key.toList else if file = .tmp name then none
      else dir file :=
  execute_writeAtomic dir _ _ _ _

theorem execute_backUp {slot : Nat} {name : KeyName} (free : dir (.old name slot) = none)
    (file : KeyFile) :
    execute dir (backUp dir slot name) file =
      if file = .old name slot then dir (.live name) else if file = .live name then none
      else dir file := by
  unfold backUp present
  cases found : dir (.live name) with
  | none =>
      simp only [Option.isSome_none, Bool.false_eq_true, if_false, execute_nil]
      split
      next same => rw [same, free]
      next =>
        split
        next same => rw [same, found]
        next => rfl
  | some content =>
      simp only [Option.isSome_some, if_true, execute_cons, execute_nil]
      exact apply_rename _ _ found

theorem freeSlot_some {slot : Nat} (found : freeSlot dir = some slot) :
    dir (.old .data slot) = none ∧ dir (.old .chunkId slot) = none := by
  have vacant := List.find?_some found
  simpa [present] using vacant

theorem backUp_congr {other : StateDir} {name : KeyName} (slot : Nat)
    (same : other (.live name) = dir (.live name)) :
    backUp dir slot name = backUp other slot name := by
  unfold backUp present
  rw [same]

variable {dir}

section Slot

variable {slot : Nat} (freeData : dir (.old .data slot) = none)

include freeData

theorem backUp_chunkId_eq :
    backUp dir slot .chunkId = backUp (execute dir (backUp dir slot .data)) slot .chunkId :=
  backUp_congr dir slot (by simp [execute_backUp dir freeData])

variable (freeChunk : dir (.old .chunkId slot) = none)

include freeChunk

theorem chunkId_slot_free_after_backUp :
    execute dir (backUp dir slot .data) (.old .chunkId slot) = none := by
  simp [execute_backUp dir freeData, freeChunk]

/-- Both keys are in the slot, as far as they were there. -/
theorem execute_backUps (file : KeyFile) :
    execute dir (backUp dir slot .data ++ backUp dir slot .chunkId) file =
      match file with
      | .live _ => none
      | .tmp name => dir (.tmp name)
      | .old name other => if other = slot then dir (.live name) else dir (.old name other) := by
  rw [backUp_chunkId_eq freeData, execute_append,
    execute_backUp _ (chunkId_slot_free_after_backUp freeData freeChunk)]
  simp only [execute_backUp dir freeData]
  rcases file with name | name | ⟨name, other⟩ <;> cases name <;> simp

theorem safeSteps_backUps :
    SafeSteps dir (backUp dir slot .data ++ backUp dir slot .chunkId) := by
  refine safeSteps_append (safeSteps_backUp dir freeData fun _ => freeChunk) ?_
  rw [backUp_chunkId_eq freeData]
  exact safeSteps_backUp _ (chunkId_slot_free_after_backUp freeData freeChunk) nofun

end Slot

/-- Both keys are installed, and no slot is touched. -/
theorem execute_install (dataKey chunkKey : RawKey) (file : KeyFile) :
    execute dir (writeKey .data dataKey ++ writeKey .chunkId chunkKey) file =
      match file with
      | .live .data => some dataKey.toList
      | .live .chunkId => some chunkKey.toList
      | .tmp _ => none
      | .old name slot => dir (.old name slot) := by
  rw [execute_append, execute_writeKey, execute_writeKey]
  rcases file with name | name | ⟨name, other⟩ <;> cases name <;> simp

theorem safeSteps_install (dataKey chunkKey : RawKey) (vacant : ∀ name, dir (.live name) = none) :
    SafeSteps dir (writeKey .data dataKey ++ writeKey .chunkId chunkKey) := by
  refine safeSteps_append (safeSteps_writeKey dir dataKey (vacant .data)) ?_
  refine safeSteps_writeKey _ chunkKey ?_
  simp [execute_writeKey, vacant .chunkId]

variable (dir)

theorem loadOptional_eq_some {name : KeyName} {key : RawKey} :
    loadOptional dir name = some key ↔ dir (.live name) = some key.toList := by
  unfold loadOptional
  cases dir (.live name) with
  | none => simp
  | some bytes =>
      simp only [Option.bind_some, Option.some.injEq]
      constructor
      · intro read
        exact (toList_of_toArray? read).symm
      · rintro rfl
        exact toArray?_toList key

/-- The four ways of an import. -/
theorem importPlan_cases (keys : DataKey × ChunkIdKey) :
    (dir (.live .data) = some keys.1.raw.toList ∧ dir (.live .chunkId) = some keys.2.raw.toList ∧
      importPlan dir keys = (.ok .alreadyCurrent, [])) ∨
    ((∀ name, dir (.live name) = none) ∧ importPlan dir keys =
      (.ok .installed, writeKey .data keys.1.raw ++ writeKey .chunkId keys.2.raw)) ∨
    importPlan dir keys = (.error .noBackupSlot, []) ∨
    ∃ slot, dir (.old .data slot) = none ∧ dir (.old .chunkId slot) = none ∧
      importPlan dir keys = (.ok (.replaced (preserved dir slot)),
        backUp dir slot .data ++ backUp dir slot .chunkId ++
          (writeKey .data keys.1.raw ++ writeKey .chunkId keys.2.raw)) := by
  unfold importPlan
  simp only []
  split
  next current =>
    exact .inl ⟨(loadOptional_eq_some dir).mp current.1, (loadOptional_eq_some dir).mp current.2, rfl⟩
  next =>
    split
    next =>
      cases found : freeSlot dir with
      | none => exact .inr (.inr (.inl rfl))
      | some slot =>
          obtain ⟨freeData, freeChunk⟩ := freeSlot_some dir found
          exact .inr (.inr (.inr ⟨slot, freeData, freeChunk, rfl⟩))
    next absent =>
      refine .inr (.inl ⟨?_, rfl⟩)
      simp only [present, Bool.or_eq_true, Option.isSome_iff_ne_none, not_or, not_not] at absent
      rintro (_ | _)
      · exact absent.1
      · exact absent.2

theorem safeSteps_importPlan (keys : DataKey × ChunkIdKey) :
    SafeSteps dir (importPlan dir keys).2 := by
  rcases importPlan_cases dir keys with ⟨_, _, planned⟩ | ⟨vacant, planned⟩ | planned |
    ⟨slot, freeData, freeChunk, planned⟩
  · rw [planned]
    exact trivial
  · rw [planned]
    exact safeSteps_install _ _ vacant
  · rw [planned]
    exact trivial
  · rw [planned]
    refine safeSteps_append (safeSteps_backUps freeData freeChunk) (safeSteps_install _ _ ?_)
    intro name
    exact execute_backUps freeData freeChunk (.live name)

/-- The files an enrollment creates: those that are missing, or none. -/
theorem ensurePlan_cases (freshData freshChunk : RawKey) :
    (ensurePlan dir freshData freshChunk).2 = [] ∨
    (dir (.live .data) = none ∧ dir (.live .chunkId) = none ∧
      (ensurePlan dir freshData freshChunk).2 =
        writeKey .data freshData ++ writeKey .chunkId freshChunk) ∨
    ((∃ present, dir (.live .data) = some present) ∧ dir (.live .chunkId) = none ∧
      (ensurePlan dir freshData freshChunk).2 = writeKey .chunkId freshChunk) ∨
    (dir (.live .data) = none ∧ (∃ present, dir (.live .chunkId) = some present) ∧
      (ensurePlan dir freshData freshChunk).2 = writeKey .data freshData) := by
  unfold ensurePlan ensureKeyFile
  cases data : dir (.live .data) with
  | none =>
      cases chunk : dir (.live .chunkId) with
      | none => exact .inr (.inl ⟨rfl, rfl, rfl⟩)
      | some present =>
          refine .inr (.inr (.inr ⟨rfl, ⟨present, rfl⟩, ?_⟩))
          by_cases sized : present.length = 32
          · simp [sized]
          · simp [sized]
  | some stored =>
      by_cases sized : stored.length = 32
      · simp only [sized, if_true]
        cases chunk : dir (.live .chunkId) with
        | none => exact .inr (.inr (.inl ⟨⟨stored, rfl⟩, rfl, rfl⟩))
        | some present =>
            refine .inl ?_
            by_cases also : present.length = 32
            · simp [also]
            · simp [also]
      · exact .inl (by simp [sized])

theorem safeSteps_ensurePlan (freshData freshChunk : RawKey) :
    SafeSteps dir (ensurePlan dir freshData freshChunk).2 := by
  rcases ensurePlan_cases dir freshData freshChunk with planned | ⟨data, chunk, planned⟩ |
    ⟨_, chunk, planned⟩ | ⟨data, _, planned⟩
  · rw [planned]
    exact trivial
  · rw [planned]
    refine safeSteps_install _ _ ?_
    rintro (_ | _)
    · exact data
    · exact chunk
  · rw [planned]
    exact safeSteps_writeKey dir freshChunk chunk
  · rw [planned]
    exact safeSteps_writeKey dir freshData data

theorem safeSteps_steps (aead : Aead) (argon2id : Argon2id) (call : KeyCall) :
    SafeSteps dir (call.steps aead argon2id dir) := by
  cases call with
  | importKey bytes passphrase =>
      cases opened : openKeyfile aead argon2id bytes passphrase with
      | error error => simp [KeyCall.steps, opened, SafeSteps]
      | ok keys => simpa only [KeyCall.steps, opened] using safeSteps_importPlan dir keys
  | ensureDataKey freshData freshChunk => exact safeSteps_ensurePlan dir freshData freshChunk

end Plans

section Interruption

theorem atomic_writeKey (name : KeyName) (key : RawKey) :
    Atomic temporaries (writeKey name key) :=
  atomic_writeAtomic (Set.mem_range_self name) _ _

theorem atomic_backUp (dir : StateDir) (slot : Nat) (name : KeyName) :
    Atomic temporaries (backUp dir slot name) := by
  unfold backUp
  split
  next => exact atomic_singleton _
  next => exact atomic_nil

variable {dir : StateDir} {done rest : List KeyStep}

/-- What a directory can look like during an import that has changed
something. -/
structure Importing (dir : StateDir) (keys : DataKey × ChunkIdKey) (now : StateDir) : Prop where
  live : ∀ {dataKey chunkKey}, now (.live .data) = some dataKey →
    now (.live .chunkId) = some chunkKey →
    dataKey = keys.1.raw.toList ∧ chunkKey = keys.2.raw.toList
  slots : ∀ {slot dataKey chunkKey}, now (.old .data slot) = some dataKey →
    now (.old .chunkId slot) = some chunkKey →
    (dir (.old .data slot) = some dataKey ∧ dir (.old .chunkId slot) = some chunkKey) ∨
      (dir (.live .data) = some dataKey ∧ dir (.live .chunkId) = some chunkKey)

variable {keys : DataKey × ChunkIdKey}

theorem Importing.of_agrees {now other : StateDir} (importing : Importing dir keys other)
    (agrees : Agrees temporaries now other) : Importing dir keys now := by
  constructor
  · intro dataKey chunkKey data chunk
    rw [agrees _ (live_notMem_temporaries _)] at data chunk
    exact importing.live data chunk
  · intro slot dataKey chunkKey data chunk
    rw [agrees _ (old_notMem_temporaries _ _)] at data chunk
    exact importing.slots data chunk

theorem importing_backUp {slot : Nat} (freeData : dir (.old .data slot) = none)
    (freeChunk : dir (.old .chunkId slot) = none) :
    Importing dir keys (execute dir (backUp dir slot .data)) := by
  constructor
  · intro dataKey chunkKey data chunk
    simp [execute_backUp dir freeData] at data
  · intro other dataKey chunkKey data chunk
    by_cases same : other = slot
    · subst same
      simp [execute_backUp dir freeData, freeChunk] at chunk
    · simp only [execute_backUp dir freeData, KeyFile.old.injEq, true_and, same, if_false,
        reduceCtorEq, false_and] at data chunk
      exact .inl ⟨data, chunk⟩

theorem importing_backUps {slot : Nat} (freeData : dir (.old .data slot) = none)
    (freeChunk : dir (.old .chunkId slot) = none) :
    Importing dir keys (execute dir (backUp dir slot .data ++ backUp dir slot .chunkId)) := by
  constructor
  · intro dataKey chunkKey data chunk
    simp [execute_backUps freeData freeChunk] at data
  · intro other dataKey chunkKey data chunk
    simp only [execute_backUps freeData freeChunk] at data chunk
    by_cases same : other = slot
    · simp only [same, if_true] at data chunk
      exact .inr ⟨data, chunk⟩
    · simp only [same, if_false] at data chunk
      exact .inl ⟨data, chunk⟩

/-- Wherever the two writes are interrupted, over a directory without live
keys. -/
theorem importing_install {base : StateDir} (importing : Importing dir keys base)
    (vacant : base (.live .chunkId) = none)
    (split : writeKey .data keys.1.raw ++ writeKey .chunkId keys.2.raw = done ++ rest) :
    Importing dir keys (execute base done) := by
  rcases agrees_of_interrupted (atomic_writeKey _ _) (atomic_writeKey _ _) split base with
    none | first | both
  · exact importing.of_agrees none
  · refine Importing.of_agrees ⟨?_, ?_⟩ first
    · intro dataKey chunkKey data chunk
      simp [execute_writeKey, vacant] at chunk
    · intro slot dataKey chunkKey data chunk
      simp only [execute_writeKey, reduceCtorEq, if_false] at data chunk
      exact importing.slots data chunk
  · refine Importing.of_agrees ⟨?_, ?_⟩ both
    · intro dataKey chunkKey data chunk
      simp only [execute_install, Option.some.injEq] at data chunk
      exact ⟨data.symm, chunk.symm⟩
    · intro slot dataKey chunkKey data chunk
      simp only [execute_install] at data chunk
      exact importing.slots data chunk

theorem importPlan_interrupted (split : (importPlan dir keys).2 = done ++ rest) :
    Agrees temporaries (execute dir done) dir ∨ Importing dir keys (execute dir done) := by
  rcases importPlan_cases dir keys with ⟨_, _, planned⟩ | ⟨vacant, planned⟩ | planned |
    ⟨slot, freeData, freeChunk, planned⟩
  · rw [planned] at split
    obtain ⟨rfl, _⟩ := List.nil_eq_append_iff.mp split
    exact .inl (.refl dir)
  · rw [planned] at split
    have untouched : Importing dir keys dir := by
      refine ⟨?_, fun data chunk => .inl ⟨data, chunk⟩⟩
      intro dataKey chunkKey data chunk
      rw [vacant] at data
      cases data
    exact .inr (importing_install untouched (vacant .chunkId) split)
  · rw [planned] at split
    obtain ⟨rfl, _⟩ := List.nil_eq_append_iff.mp split
    exact .inl (.refl dir)
  · rw [planned] at split
    rcases List.append_eq_append_iff.mp split with ⟨more, rfl, later⟩ | ⟨more, inside, _⟩
    · rw [execute_append]
      exact .inr (importing_install (importing_backUps freeData freeChunk)
        (execute_backUps freeData freeChunk _) later)
    · rcases agrees_of_interrupted (atomic_backUp _ _ _) (atomic_backUp _ _ _) inside dir with
        none | first | both
      · exact .inl none
      · exact .inr ((importing_backUp freeData freeChunk).of_agrees first)
      · exact .inr ((importing_backUps freeData freeChunk).of_agrees both)

/-- What a directory can look like during an enrollment. -/
inductive Ensuring (dir : StateDir) (freshData freshChunk : RawKey) (now : StateDir) : Prop where
  /-- No key has been created. -/
  | unchanged (same : ∀ name, now (.live name) = dir (.live name))
  /-- The data key has been created. -/
  | dataCreated (vacant : dir (.live .data) = none)
      (data : now (.live .data) = some freshData.toList)
      (chunk : now (.live .chunkId) = dir (.live .chunkId))
  | chunkCreated (data : now (.live .data) = dir (.live .data))
      (stored : ∃ present, dir (.live .data) = some present)
      (vacant : dir (.live .chunkId) = none)
      (chunk : now (.live .chunkId) = some freshChunk.toList)
  | bothCreated (vacantData : dir (.live .data) = none) (vacantChunk : dir (.live .chunkId) = none)
      (data : now (.live .data) = some freshData.toList)
      (chunk : now (.live .chunkId) = some freshChunk.toList)

theorem Ensuring.of_agrees {freshData freshChunk : RawKey} {now other : StateDir}
    (ensuring : Ensuring dir freshData freshChunk other)
    (agrees : Agrees temporaries now other) : Ensuring dir freshData freshChunk now := by
  have same : ∀ name, now (.live name) = other (.live name) :=
    fun name => agrees _ (live_notMem_temporaries name)
  cases ensuring with
  | unchanged unchanged => exact .unchanged fun name => (same name).trans (unchanged name)
  | dataCreated vacant data chunk =>
      exact .dataCreated vacant ((same _).trans data) ((same _).trans chunk)
  | chunkCreated data stored vacant chunk =>
      exact .chunkCreated ((same _).trans data) stored vacant ((same _).trans chunk)
  | bothCreated vacantData vacantChunk data chunk =>
      exact .bothCreated vacantData vacantChunk ((same _).trans data) ((same _).trans chunk)

theorem ensurePlan_interrupted {freshData freshChunk : RawKey}
    (split : (ensurePlan dir freshData freshChunk).2 = done ++ rest) :
    (∀ name slot, execute dir done (.old name slot) = dir (.old name slot)) ∧
      Ensuring dir freshData freshChunk (execute dir done) := by
  have unseen : ∀ {now : StateDir}, Agrees temporaries now dir →
      (∀ name slot, now (.old name slot) = dir (.old name slot)) ∧
        Ensuring dir freshData freshChunk now := fun agrees =>
    ⟨fun name slot => agrees _ (old_notMem_temporaries name slot),
      .unchanged fun name => agrees _ (live_notMem_temporaries name)⟩
  rcases ensurePlan_cases dir freshData freshChunk with planned | ⟨data, chunk, planned⟩ |
    ⟨stored, chunk, planned⟩ | ⟨data, stored, planned⟩
  · rw [planned] at split
    obtain ⟨rfl, _⟩ := List.nil_eq_append_iff.mp split
    exact unseen (.refl dir)
  · rw [planned] at split
    rcases agrees_of_interrupted (atomic_writeKey _ _) (atomic_writeKey _ _) split dir with
      none | first | both
    · exact unseen none
    · refine ⟨fun name slot => ?_, .dataCreated data ?_ ?_⟩
      · simp [first _ (old_notMem_temporaries name slot), execute_writeKey]
      · simp [first _ (live_notMem_temporaries _), execute_writeKey]
      · simp [first _ (live_notMem_temporaries _), execute_writeKey]
    · refine ⟨fun name slot => ?_, .bothCreated data chunk ?_ ?_⟩
      · simp [both _ (old_notMem_temporaries name slot), execute_install]
      · simp [both _ (live_notMem_temporaries _), execute_install]
      · simp [both _ (live_notMem_temporaries _), execute_install]
  · rw [planned] at split
    rcases atomic_writeKey _ _ dir done rest split with none | all
    · exact unseen none
    · refine ⟨fun name slot => ?_, .chunkCreated ?_ stored chunk ?_⟩
      · simp [all _ (old_notMem_temporaries name slot), execute_writeKey]
      · simp [all _ (live_notMem_temporaries _), execute_writeKey]
      · simp [all _ (live_notMem_temporaries _), execute_writeKey]
  · rw [planned] at split
    rcases atomic_writeKey _ _ dir done rest split with none | all
    · exact unseen none
    · refine ⟨fun name slot => ?_, .dataCreated data ?_ ?_⟩
      · simp [all _ (old_notMem_temporaries name slot), execute_writeKey]
      · simp [all _ (live_notMem_temporaries _), execute_writeKey]
      · simp [all _ (live_notMem_temporaries _), execute_writeKey]

end Interruption

section Runs

variable {aead : Aead} {argon2id : Argon2id}

theorem step_cases {machine next : Machine} {event : Event}
    (stepped : step aead argon2id machine event = some next) :
    (∃ call, event = .begin call ∧ machine.todo = [] ∧
      next = ⟨machine.dir, some call, call.steps aead argon2id machine.dir⟩) ∨
    (∃ file rest, event = .advance ∧ machine.todo = file :: rest ∧
      next = ⟨file.apply machine.dir, machine.call, rest⟩) ∨
    (∃ written, event = .stop written ∧ machine.todo = [] ∧ next = machine) ∨
    ∃ written file rest, event = .stop written ∧ machine.todo = file :: rest ∧
      next = ⟨file.cut machine.dir written, machine.call, []⟩ := by
  obtain ⟨dir, running, todo⟩ := machine
  cases event with
  | begin call =>
      cases todo with
      | nil => exact .inl ⟨call, rfl, rfl, (Option.some.inj stepped).symm⟩
      | cons file rest => cases stepped
  | advance =>
      cases todo with
      | nil => cases stepped
      | cons file rest => exact .inr (.inl ⟨file, rest, rfl, rfl, (Option.some.inj stepped).symm⟩)
  | stop written =>
      cases todo with
      | nil => exact .inr (.inr (.inl ⟨written, rfl, rfl, (Option.some.inj stepped).symm⟩))
      | cons file rest =>
          exact .inr (.inr (.inr ⟨written, file, rest, rfl, rfl, (Option.some.inj stepped).symm⟩))

/-- The keys of a directory are kept by another: where they were live they
are recorded, and the slots are untouched. -/
structure Keeps (dir later : StateDir) : Prop where
  recorded : ∀ {name content}, Recorded dir name content → Recorded later name content
  old : ∀ {name slot content}, dir (.old name slot) = some content →
    later (.old name slot) = some content

theorem Keeps.trans {dir later last : StateDir} (first : Keeps dir later)
    (second : Keeps later last) : Keeps dir last :=
  ⟨fun recorded => second.recorded (first.recorded recorded),
    fun kept => second.old (first.old kept)⟩

theorem keeps_of_agrees {dir later : StateDir} (agrees : Agrees temporaries later dir) :
    Keeps dir later := by
  constructor
  · rintro name content (live | ⟨slot, kept⟩)
    · exact .inl (by rwa [agrees _ (live_notMem_temporaries name)])
    · exact .inr ⟨slot, by rwa [agrees _ (old_notMem_temporaries name slot)]⟩
  · intro name slot content kept
    rwa [agrees _ (old_notMem_temporaries name slot)]

theorem safeSteps_step {machine next : Machine} {event : Event}
    (planned : SafeSteps machine.dir machine.todo)
    (stepped : step aead argon2id machine event = some next) :
    SafeSteps next.dir next.todo := by
  rcases step_cases stepped with ⟨call, _, _, rfl⟩ | ⟨file, rest, _, todo, rfl⟩ |
    ⟨written, _, _, rfl⟩ | ⟨written, file, rest, _, todo, rfl⟩
  · exact safeSteps_steps _ _ _ call
  · rw [todo] at planned
    exact planned.2
  · exact planned
  · exact trivial

theorem keeps_step {machine next : Machine} {event : Event}
    (planned : SafeSteps machine.dir machine.todo)
    (stepped : step aead argon2id machine event = some next) : Keeps machine.dir next.dir := by
  rcases step_cases stepped with ⟨call, _, _, rfl⟩ | ⟨file, rest, _, todo, rfl⟩ |
    ⟨written, _, _, rfl⟩ | ⟨written, file, rest, _, todo, rfl⟩
  · exact keeps_of_agrees (.refl _)
  · rw [todo] at planned
    exact ⟨planned.1.recorded_kept, planned.1.old_kept⟩
  · exact keeps_of_agrees (.refl _)
  · rw [todo] at planned
    exact keeps_of_agrees (planned.1.cut_agrees written)

theorem keeps_run {machine final : Machine} {events : List Event}
    (planned : SafeSteps machine.dir machine.todo)
    (executed : run (step aead argon2id) machine events = some final) :
    SafeSteps final.dir final.todo ∧ Keeps machine.dir final.dir := by
  induction events generalizing machine with
  | nil =>
      cases executed
      exact ⟨planned, keeps_of_agrees (.refl _)⟩
  | cons event rest inductionHypothesis =>
      obtain ⟨next, stepped, continued⟩ := run_cons_eq_some executed
      obtain ⟨safe, kept⟩ := inductionHypothesis (safeSteps_step planned stepped) continued
      exact ⟨safe, (keeps_step planned stepped).trans kept⟩

theorem safeSteps_of_run {start : StateDir} {events : List Event} {machine : Machine}
    (executed : run (step aead argon2id) (.idle start) events = some machine) :
    SafeSteps machine.dir machine.todo := by
  have planned : SafeSteps (Machine.idle start).dir (Machine.idle start).todo := trivial
  exact (keeps_run planned executed).1

abbrev KeyVisit := Visit Machine Event

variable (aead argon2id) in
/-- A call that began at one visit and has since taken some of its steps; it
may have been stopped. -/
structure Ongoing (begun : KeyVisit) (later : List KeyVisit) (call : KeyCall)
    (done : List KeyStep) (machine : Machine) : Prop where
  event : begun.event = .begin call
  current : machine.call = some call
  own : ∀ visit ∈ later, visit.event = .advance → visit.before.call = some call
  advanced : done ≠ [] → ∃ visit ∈ later, visit.event = .advance
  seen : Agrees temporaries machine.dir (execute begun.before.dir done)
  planned : ∃ rest, call.steps aead argon2id begun.before.dir = done ++ rest ∧
    (machine.todo = [] ∨ machine.todo = rest ∧ machine.dir = execute begun.before.dir done)

/-- One more visit of a call. -/
theorem Ongoing.step {begun : KeyVisit} {later : List KeyVisit} {call : KeyCall}
    {done : List KeyStep} {machine next : Machine} {event : Event}
    (ongoing : Ongoing aead argon2id begun later call done machine)
    (planned : SafeSteps machine.dir machine.todo)
    (stepped : step aead argon2id machine event = some next)
    (continues : ∀ other, event ≠ .begin other) :
    ∃ done, Ongoing aead argon2id begun (later ++ [⟨machine, event, next⟩]) call done next := by
  have own : ∀ visit ∈ later ++ [⟨machine, event, next⟩], visit.event = .advance →
      visit.before.call = some call := by
    intro visit listed
    rcases List.mem_append.mp listed with old | new
    · exact ongoing.own visit old
    · obtain rfl := List.mem_singleton.mp new
      exact fun _ => ongoing.current
  have advanced : done ≠ [] →
      ∃ visit ∈ later ++ [⟨machine, event, next⟩], visit.event = .advance := by
    intro some
    obtain ⟨visit, listed, advance⟩ := ongoing.advanced some
    exact ⟨visit, List.mem_append_left _ listed, advance⟩
  rcases step_cases stepped with ⟨other, rfl, _, _⟩ | ⟨file, rest, rfl, todo, rfl⟩ |
    ⟨written, _, _, rfl⟩ | ⟨written, file, rest, _, todo, rfl⟩
  · exact absurd rfl (continues other)
  · obtain ⟨remaining, split, none | ⟨rfl, directory⟩⟩ := ongoing.planned
    · rw [none] at todo
      cases todo
    · refine ⟨done ++ [file], ongoing.event, ongoing.current, own, ?_, ?_, rest, ?_, .inr ⟨rfl, ?_⟩⟩
      · intro _
        exact ⟨_, List.mem_append_right _ (List.mem_singleton_self _), rfl⟩
      · rw [directory, execute_append]
        exact .refl _
      · rw [split, todo, List.append_assoc, List.singleton_append]
      · rw [directory, execute_append]
        rfl
  · exact ⟨done, ongoing.event, ongoing.current, own, advanced, ongoing.seen, ongoing.planned⟩
  · rw [todo] at planned
    obtain ⟨remaining, split, _⟩ := ongoing.planned
    exact ⟨done, ongoing.event, ongoing.current, own, advanced,
      (planned.1.cut_agrees written).trans ongoing.seen, remaining, split, .inl rfl⟩

theorem ongoing_of_begin {machine next : Machine} {call : KeyCall}
    (stepped : KeyFiles.step aead argon2id machine (.begin call) = some next) :
    Ongoing aead argon2id ⟨machine, .begin call, next⟩ [] call [] next := by
  rcases step_cases stepped with ⟨other, same, _, rfl⟩ | ⟨_, _, other, _⟩ | ⟨_, other, _⟩ |
    ⟨_, _, _, other, _⟩
  · cases same
    exact ⟨rfl, rfl, nofun, nofun, .refl _, _, rfl, .inr ⟨rfl, rfl⟩⟩
  · cases other
  · cases other
  · cases other

theorem idle_step {start : StateDir} {next : Machine} {event : Event}
    (stepped : KeyFiles.step aead argon2id (.idle start) event = some next)
    (continues : ∀ other, event ≠ .begin other) : next = .idle start ∧ event ≠ .advance := by
  rcases step_cases stepped with ⟨other, same, _, _⟩ | ⟨file, rest, _, todo, _⟩ |
    ⟨written, rfl, _, rfl⟩ | ⟨written, file, rest, _, todo, _⟩
  · exact absurd same (continues other)
  · cases todo
  · exact ⟨rfl, nofun⟩
  · cases todo

/-- A machine is still where it started or in its last call. -/
theorem ongoing_of_run {start : StateDir} {events : List Event} {machine : Machine}
    (executed : run (step aead argon2id) (.idle start) events = some machine) :
    (machine = .idle start ∧
      ∀ visit ∈ visits (step aead argon2id) (.idle start) events, visit.event ≠ .advance) ∨
    ∃ earlier begun later call done,
      visits (step aead argon2id) (.idle start) events = earlier ++ begun :: later ∧
        Ongoing aead argon2id begun later call done machine := by
  refine run_induction (fun events machine =>
    (machine = Machine.idle start ∧
      ∀ visit ∈ visits (KeyFiles.step aead argon2id) (.idle start) events,
        visit.event ≠ .advance) ∨
    ∃ earlier begun later call done,
      visits (KeyFiles.step aead argon2id) (.idle start) events = earlier ++ begun :: later ∧
        Ongoing aead argon2id begun later call done machine) ?_ ?_ executed
  · exact .inl ⟨rfl, nofun⟩
  · intro events machine event next reached held stepped
    rw [visits_concat reached stepped]
    by_cases begins : ∃ call, event = .begin call
    · obtain ⟨call, rfl⟩ := begins
      exact .inr ⟨_, _, [], call, [], rfl, ongoing_of_begin stepped⟩
    · have continues : ∀ other, event ≠ .begin other := not_exists.mp begins
      rcases held with ⟨rfl, still⟩ | ⟨earlier, begun, later, call, done, recorded, ongoing⟩
      · obtain ⟨rfl, quiet⟩ := idle_step stepped continues
        refine .inl ⟨rfl, fun visit listed => ?_⟩
        rcases List.mem_append.mp listed with old | new
        · exact still visit old
        · obtain rfl := List.mem_singleton.mp new
          exact quiet
      · obtain ⟨more, further⟩ := ongoing.step (safeSteps_of_run reached) stepped continues
        rw [recorded, List.append_assoc, List.cons_append]
        exact .inr ⟨earlier, begun, _, call, more, rfl, further⟩

/-- An import that goes on has opened its keyfile. -/
theorem Ongoing.importing {begun : KeyVisit} {later : List KeyVisit} {bytes passphrase : Bytes}
    {done : List KeyStep} {machine : Machine}
    (ongoing : Ongoing aead argon2id begun later (.importKey bytes passphrase) done machine) :
    Agrees temporaries machine.dir begun.before.dir ∨
      done ≠ [] ∧ ∃ keys, openKeyfile aead argon2id bytes passphrase = .ok keys ∧
        Importing begun.before.dir keys machine.dir := by
  by_cases begins : done = []
  · subst begins
    exact .inl ongoing.seen
  · obtain ⟨rest, split, _⟩ := ongoing.planned
    cases opened : openKeyfile aead argon2id bytes passphrase with
    | error error =>
        simp only [KeyCall.steps, opened, List.nil_eq, List.append_eq_nil_iff] at split
        exact absurd split.1 begins
    | ok keys =>
        simp only [KeyCall.steps, opened] at split
        rcases importPlan_interrupted split with none | importing
        · exact .inl (ongoing.seen.trans none)
        · exact .inr ⟨begins, keys, rfl, importing.of_agrees ongoing.seen⟩

theorem Ongoing.ensuring {begun : KeyVisit} {later : List KeyVisit}
    {freshData freshChunk : RawKey} {done : List KeyStep} {machine : Machine}
    (ongoing : Ongoing aead argon2id begun later (.ensureDataKey freshData freshChunk) done
      machine) :
    (∀ name slot, machine.dir (.old name slot) = begun.before.dir (.old name slot)) ∧
      Ensuring begun.before.dir freshData freshChunk machine.dir := by
  obtain ⟨rest, split, _⟩ := ongoing.planned
  obtain ⟨slots, ensuring⟩ := ensurePlan_interrupted split
  refine ⟨fun name slot => ?_, ensuring.of_agrees ongoing.seen⟩
  rw [ongoing.seen _ (old_notMem_temporaries name slot), slots]

/-- A slot that holds both keys held them when the call began, or they were
live then. -/
theorem Ongoing.slots {begun : KeyVisit} {later : List KeyVisit} {call : KeyCall}
    {done : List KeyStep} {machine : Machine}
    (ongoing : Ongoing aead argon2id begun later call done machine) {slot : Nat}
    {dataKey chunkKey : Bytes} (data : machine.dir (.old .data slot) = some dataKey)
    (chunk : machine.dir (.old .chunkId slot) = some chunkKey) :
    (begun.before.dir (.old .data slot) = some dataKey ∧
      begun.before.dir (.old .chunkId slot) = some chunkKey) ∨
    (begun.before.dir (.live .data) = some dataKey ∧
      begun.before.dir (.live .chunkId) = some chunkKey) := by
  cases call with
  | importKey bytes passphrase =>
      rcases ongoing.importing with same | ⟨_, keys, _, importing⟩
      · rw [same _ (old_notMem_temporaries _ _)] at data chunk
        exact .inl ⟨data, chunk⟩
      · exact importing.slots data chunk
  | ensureDataKey freshData freshChunk =>
      rw [ongoing.ensuring.1] at data chunk
      exact .inl ⟨data, chunk⟩

/-- The contents were live together in some state of the run. -/
def LiveTogether (aead : Aead) (argon2id : Argon2id) (start : StateDir) (events : List Event)
    (dataKey chunkKey : Bytes) : Prop :=
  ∃ before after middle, events = before ++ after ∧
    run (step aead argon2id) (.idle start) before = some middle ∧
    middle.dir (.live .data) = some dataKey ∧ middle.dir (.live .chunkId) = some chunkKey

theorem LiveTogether.append {start : StateDir} {events : List Event} {dataKey chunkKey : Bytes}
    (together : LiveTogether aead argon2id start events dataKey chunkKey) (more : List Event) :
    LiveTogether aead argon2id start (events ++ more) dataKey chunkKey := by
  obtain ⟨before, after, middle, rfl, visited, live⟩ := together
  exact ⟨before, after ++ more, middle, List.append_assoc _ _ _, visited, live⟩

theorem slots_of_run {start : StateDir} {events : List Event} {machine : Machine}
    (executed : run (KeyFiles.step aead argon2id) (.idle start) events = some machine)
    {slot : Nat} {dataKey chunkKey : Bytes}
    (data : machine.dir (.old .data slot) = some dataKey)
    (chunk : machine.dir (.old .chunkId slot) = some chunkKey) :
    (start (.old .data slot) = some dataKey ∧ start (.old .chunkId slot) = some chunkKey) ∨
      LiveTogether aead argon2id start events dataKey chunkKey := by
  refine run_strong_induction (fun events machine => ∀ {slot : Nat} {dataKey chunkKey : Bytes},
    machine.dir (.old .data slot) = some dataKey →
    machine.dir (.old .chunkId slot) = some chunkKey →
    (start (.old .data slot) = some dataKey ∧ start (.old .chunkId slot) = some chunkKey) ∨
      LiveTogether aead argon2id start events dataKey chunkKey) ?_ events executed data chunk
  intro events machine executed earlierHold slot dataKey chunkKey data chunk
  rcases ongoing_of_run executed with ⟨rfl, _⟩ | ⟨earlier, begun, later, call, done, split, ongoing⟩
  · exact .inl ⟨data, chunk⟩
  · obtain ⟨first, second, rfl, reached, _⟩ := split_of_visits executed split
    rcases ongoing.slots data chunk with ⟨oldData, oldChunk⟩ | ⟨liveData, liveChunk⟩
    · rcases earlierHold first _ second _ rfl reached oldData oldChunk with held | together
      · exact .inl held
      · exact .inr (together.append _)
    · exact .inr ⟨first, _, begun.before, rfl, reached, liveData, liveChunk⟩

/-- A call that nothing stops takes all of its steps. -/
theorem run_advances (dir : StateDir) (running : Option KeyCall) (todo : List KeyStep) :
    run (KeyFiles.step aead argon2id) ⟨dir, running, todo⟩
        (List.replicate todo.length .advance) =
      some ⟨execute dir todo, running, []⟩ := by
  induction todo generalizing dir with
  | nil => rfl
  | cons file rest inductionHypothesis => exact inductionHypothesis (file.apply dir)

theorem run_importKey {machine : Machine} (done : machine.todo = []) (bytes passphrase : Bytes) :
    ∃ count, run (KeyFiles.step aead argon2id) machine
        (.begin (.importKey bytes passphrase) :: List.replicate count .advance) =
      some ⟨(importKey aead argon2id machine.dir bytes passphrase).2,
        some (.importKey bytes passphrase), []⟩ := by
  obtain ⟨dir, running, todo⟩ := machine
  cases done
  have whole : (importKey aead argon2id dir bytes passphrase).2 =
      execute dir ((KeyCall.importKey bytes passphrase).steps aead argon2id dir) := by
    cases opened : openKeyfile aead argon2id bytes passphrase with
    | error error => simp [importKey, KeyCall.steps, opened]
    | ok keys => simp [importKey, KeyCall.steps, opened]
  rw [whole]
  exact ⟨_, run_advances dir (some (.importKey bytes passphrase))
    ((KeyCall.importKey bytes passphrase).steps aead argon2id dir)⟩

/-- A successful import leaves the pair of the keyfile live. -/
theorem importKey_ok {dir : StateDir} {bytes passphrase : Bytes} {outcome : ImportOutcome}
    (succeeded : (importKey aead argon2id dir bytes passphrase).1 = .ok outcome) :
    ∃ keys, openKeyfile aead argon2id bytes passphrase = .ok keys ∧
      (importKey aead argon2id dir bytes passphrase).2 (.live .data) = some keys.1.raw.toList ∧
      (importKey aead argon2id dir bytes passphrase).2 (.live .chunkId) =
        some keys.2.raw.toList := by
  cases opened : openKeyfile aead argon2id bytes passphrase with
  | error error => simp [importKey, opened] at succeeded
  | ok keys =>
      simp only [importKey, opened] at succeeded ⊢
      refine ⟨keys, rfl, ?_⟩
      rcases importPlan_cases dir keys with ⟨data, chunk, planned⟩ | ⟨_, planned⟩ | planned |
        ⟨slot, _, _, planned⟩
      · rw [planned]
        exact ⟨data, chunk⟩
      · rw [planned]
        exact ⟨execute_install _ _ _, execute_install _ _ _⟩
      · rw [planned] at succeeded
        cases succeeded
      · rw [planned, execute_append]
        exact ⟨execute_install _ _ _, execute_install _ _ _⟩

theorem importKey_current {dir : StateDir} {bytes passphrase : Bytes}
    {keys : DataKey × ChunkIdKey} (opened : openKeyfile aead argon2id bytes passphrase = .ok keys)
    (data : dir (.live .data) = some keys.1.raw.toList)
    (chunk : dir (.live .chunkId) = some keys.2.raw.toList) :
    importKey aead argon2id dir bytes passphrase = (.ok .alreadyCurrent, dir) := by
  have current := And.intro ((loadOptional_eq_some dir).mpr data)
    ((loadOptional_eq_some dir).mpr chunk)
  simp only [importKey, opened, importPlan, if_pos current, execute_nil]

/-- An import that fails without being stopped has changed nothing. -/
theorem importKey_error {dir : StateDir} {bytes passphrase : Bytes} {error : KeyError}
    (failed : (importKey aead argon2id dir bytes passphrase).1 = .error error) :
    (importKey aead argon2id dir bytes passphrase).2 = dir := by
  cases opened : openKeyfile aead argon2id bytes passphrase with
  | error error => simp [importKey, opened]
  | ok keys =>
      simp only [importKey, opened] at failed ⊢
      rcases importPlan_cases dir keys with ⟨_, _, planned⟩ | ⟨_, planned⟩ | planned |
        ⟨slot, _, _, planned⟩
      · rw [planned] at failed
        cases failed
      · rw [planned] at failed
        cases failed
      · rw [planned, execute_nil]
      · rw [planned] at failed
        cases failed

/-- Key material is never destroyed: whatever was live at some time is live
or in a slot afterwards, no slot is overwritten, and the two keys of a slot
were live together.  An import that is not stopped installs the pair of the
keyfile, or fails and changes nothing. -/
theorem key_material_is_never_destroyed {start : StateDir} {events : List Event}
    {final : Machine}
    (executed : run (step aead argon2id) (.idle start) events = some final) :
    (∀ before after middle, events = before ++ after →
      run (step aead argon2id) (.idle start) before = some middle →
      (∀ name content, middle.dir (.live name) = some content →
        Recorded final.dir name content) ∧
      ∀ name slot content, middle.dir (.old name slot) = some content →
        final.dir (.old name slot) = some content) ∧
    (∀ slot dataKey chunkKey, final.dir (.old .data slot) = some dataKey →
      final.dir (.old .chunkId slot) = some chunkKey →
      (start (.old .data slot) = some dataKey ∧ start (.old .chunkId slot) = some chunkKey) ∨
        LiveTogether aead argon2id start events dataKey chunkKey) ∧
    (final.todo = [] → ∀ bytes passphrase,
      (∃ count, run (step aead argon2id) final
          (.begin (.importKey bytes passphrase) :: List.replicate count .advance) =
        some ⟨(importKey aead argon2id final.dir bytes passphrase).2,
          some (.importKey bytes passphrase), []⟩) ∧
      (∀ error, (importKey aead argon2id final.dir bytes passphrase).1 = .error error →
        (importKey aead argon2id final.dir bytes passphrase).2 = final.dir) ∧
      ∀ outcome, (importKey aead argon2id final.dir bytes passphrase).1 = .ok outcome →
        ∃ keys after, openKeyfile aead argon2id bytes passphrase = .ok keys ∧
          (importKey aead argon2id final.dir bytes passphrase).2 = after ∧
          after (.live .data) = some keys.1.raw.toList ∧
          after (.live .chunkId) = some keys.2.raw.toList ∧
          importKey aead argon2id after bytes passphrase = (.ok .alreadyCurrent, after)) := by
  refine ⟨?_, ?_, ?_⟩
  · rintro before after middle rfl reached
    obtain ⟨between, same, continued⟩ := run_append_eq_some executed
    rw [reached] at same
    cases same
    have kept := (keeps_run (safeSteps_of_run reached) continued).2
    exact ⟨fun name content live => kept.recorded (.inl live), fun name slot content => kept.old⟩
  · intro slot dataKey chunkKey data chunk
    exact slots_of_run executed data chunk
  · intro done bytes passphrase
    refine ⟨run_importKey done bytes passphrase, fun error failed => importKey_error failed, ?_⟩
    intro outcome returned
    obtain ⟨keys, opened, data, chunk⟩ := importKey_ok returned
    exact ⟨keys, _, opened, rfl, data, chunk, importKey_current opened data chunk⟩

end Runs

section Sample

/-- The file of the sample export. -/
def sampleKeyfile : Bytes :=
  (sampleExport.file (.ofRecords sampleKeyfileRecords) sampleArgon2id).toOption.getD []

abbrev sampleStep := step (.ofRecords sampleKeyfileRecords) sampleArgon2id

/-- A directory with the pair of another set. -/
def enrolledDir : StateDir
  | .live .data => some (List.replicate 32 9)
  | .live .chunkId => some (List.replicate 32 8)
  | _ => none

/-- An import that dies between its two renames, and the import that is run
after it. -/
def resumedImport : List Event :=
  [.begin (.importKey sampleKeyfile sampleExport.passphrase), .advance, .stop 0,
    .begin (.importKey sampleKeyfile sampleExport.passphrase)] ++ List.replicate 7 .advance

theorem enrolled_keys_survive_resumedImport :
    ∃ final, run sampleStep (.idle enrolledDir) resumedImport = some final ∧
      Recorded final.dir .data (List.replicate 32 9) ∧
      Recorded final.dir .chunkId (List.replicate 32 8) ∧
      (importKey (.ofRecords sampleKeyfileRecords) sampleArgon2id final.dir sampleKeyfile
        sampleExport.passphrase).1 = .ok .alreadyCurrent := by
  obtain ⟨final, executed, current⟩ : ∃ final,
      run sampleStep (.idle enrolledDir) resumedImport = some final ∧
        (importKey (.ofRecords sampleKeyfileRecords) sampleArgon2id final.dir sampleKeyfile
          sampleExport.passphrase).1 = .ok .alreadyCurrent :=
    exists_final_of_any (by decide +kernel)
  have kept := (key_material_is_never_destroyed executed).1 [] resumedImport _ rfl rfl
  exact ⟨final, executed, kept.1 .data _ rfl, kept.1 .chunkId _ rfl, current⟩

end Sample

end Busyncr.Client.KeyFiles
