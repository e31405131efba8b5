import Busyncr.Client.KeyRuns

/-!
Whether the two live keys belong to one backup set.

An enrollment creates whichever key is missing.  It may complete what an
earlier enrollment left half done, but not what an import left half done:
the imported data key would be paired with a fresh chunk-ID key, or a fresh
data key with the chunk-ID key of the replaced set.
-/

namespace Busyncr.Client.KeyFiles

open Directory Transition

section Sets

/-- A file step of an `import_key`. -/
def ByImport (visit : KeyVisit) : Prop :=
  visit.event = .advance ∧
    ∃ bytes passphrase, visit.before.call = some (.importKey bytes passphrase)

def HoldsNeither (dir : StateDir) : Prop := ∀ name, dir (.live name) = none

/-- One of the keys is there and the other is not. -/
def HoldsOne (dir : StateDir) : Prop :=
  (dir (.live .data)).isSome ≠ (dir (.live .chunkId)).isSome

/-- The last file step was one of an import. -/
def Torn (visited : List KeyVisit) : Prop :=
  ∃ earlier visit later, visited = earlier ++ visit :: later ∧ ByImport visit ∧
    ∀ other ∈ later, other.event ≠ .advance

/-- No enrollment begins on a directory that holds one key right after a file
step of an import. -/
def NeverFillsTorn (visited : List KeyVisit) : Prop :=
  ∀ earlier visit later freshData freshChunk, visited = earlier ++ visit :: later →
    visit.event = .begin (.ensureDataKey freshData freshChunk) → HoldsOne visit.before.dir →
    ¬ Torn earlier

/-- The keys of one backup set: the pair the directory started with, the pair
of a keyfile, the pair generated by one enrollment on a directory that held
neither, or such a data key with the chunk-ID key of a later enrollment
before any import. -/
inductive OneSet (aead : Aead) (argon2id : Argon2id) (start : StateDir)
    (visited : List KeyVisit) (dataKey chunkKey : Bytes) : Prop where
  | initial (data : start (.live .data) = some dataKey)
      (chunk : start (.live .chunkId) = some chunkKey)
  | imported (visit : KeyVisit) (listed : visit ∈ visited) (bytes passphrase : Bytes)
      (event : visit.event = .begin (.importKey bytes passphrase)) (keys : DataKey × ChunkIdKey)
      (opened : openKeyfile aead argon2id bytes passphrase = .ok keys)
      (data : dataKey = keys.1.raw.toList) (chunk : chunkKey = keys.2.raw.toList)
  | generated (visit : KeyVisit) (listed : visit ∈ visited) (freshData freshChunk : RawKey)
      (event : visit.event = .begin (.ensureDataKey freshData freshChunk))
      (neither : HoldsNeither visit.before.dir)
      (data : dataKey = freshData.toList) (chunk : chunkKey = freshChunk.toList)
  | completed (earlier between later : List KeyVisit) (visit last : KeyVisit)
      (history : visited = earlier ++ visit :: (between ++ last :: later))
      (freshData freshChunk lastData lastChunk : RawKey)
      (event : visit.event = .begin (.ensureDataKey freshData freshChunk))
      (neither : HoldsNeither visit.before.dir)
      (untouched : ∀ other ∈ between, ¬ ByImport other)
      (lastEvent : last.event = .begin (.ensureDataKey lastData lastChunk))
      (data : dataKey = freshData.toList) (chunk : chunkKey = lastChunk.toList)

/-- The data key of an enrollment that was stopped before its chunk-ID key,
with no import since. -/
def Pending (visited : List KeyVisit) (dataKey : Bytes) : Prop :=
  ∃ earlier visit later freshData freshChunk, visited = earlier ++ visit :: later ∧
    visit.event = .begin (.ensureDataKey freshData freshChunk) ∧
    HoldsNeither visit.before.dir ∧ dataKey = freshData.toList ∧
    ∀ other ∈ later, ¬ ByImport other

end Sets

section History

variable {aead : Aead} {argon2id : Argon2id} {start : StateDir}
  {earlier later : List KeyVisit} {dataKey chunkKey : Bytes}

theorem OneSet.append (together : OneSet aead argon2id start earlier dataKey chunkKey)
    (more : List KeyVisit) : OneSet aead argon2id start (earlier ++ more) dataKey chunkKey := by
  cases together with
  | initial data chunk => exact .initial data chunk
  | imported visit listed bytes passphrase event keys opened data chunk =>
      exact .imported visit (List.mem_append_left _ listed) bytes passphrase event keys opened
        data chunk
  | generated visit listed freshData freshChunk event neither data chunk =>
      exact .generated visit (List.mem_append_left _ listed) freshData freshChunk event neither
        data chunk
  | completed first between after visit last history freshData freshChunk lastData lastChunk event
      neither untouched lastEvent data chunk =>
      refine .completed first between (after ++ more) visit last ?_ freshData freshChunk lastData
        lastChunk event neither untouched lastEvent data chunk
      simp [history]

theorem Pending.append (pending : Pending earlier dataKey) {more : List KeyVisit}
    (untouched : ∀ other ∈ more, ¬ ByImport other) : Pending (earlier ++ more) dataKey := by
  obtain ⟨first, visit, after, freshData, freshChunk, rfl, event, neither, data, since⟩ := pending
  refine ⟨first, visit, after ++ more, freshData, freshChunk, by simp, event, neither, data, ?_⟩
  intro other listed
  rcases List.mem_append.mp listed with old | new
  · exact since other old
  · exact untouched other new

/-- The last file step of some visits that have one. -/
theorem exists_last_advance {visited : List KeyVisit}
    (advanced : ∃ visit ∈ visited, visit.event = .advance) :
    ∃ earlier visit later, visited = earlier ++ visit :: later ∧ visit.event = .advance ∧
      ∀ other ∈ later, other.event ≠ .advance := by
  induction visited with
  | nil => simp at advanced
  | cons head rest inductionHypothesis =>
      by_cases inside : ∃ visit ∈ rest, visit.event = .advance
      · obtain ⟨earlier, visit, later, rfl, event, last⟩ := inductionHypothesis inside
        exact ⟨head :: earlier, visit, later, rfl, event, last⟩
      · obtain ⟨visit, listed, event⟩ := advanced
        rcases List.mem_cons.mp listed with rfl | deeper
        · exact ⟨[], visit, rest, rfl, event, fun other found same => inside ⟨other, found, same⟩⟩
        · exact absurd ⟨visit, deeper, event⟩ inside

theorem torn_append (earlier : List KeyVisit) {more : List KeyVisit}
    (advanced : ∃ visit ∈ more, visit.event = .advance)
    (own : ∀ visit ∈ more, visit.event = .advance → ByImport visit) : Torn (earlier ++ more) := by
  obtain ⟨before, visit, after, rfl, event, last⟩ := exists_last_advance advanced
  exact ⟨earlier ++ before, visit, after, by simp, own visit (by simp) event, last⟩

theorem Torn.append (torn : Torn earlier) {more : List KeyVisit}
    (own : ∀ visit ∈ more, visit.event = .advance → ByImport visit) : Torn (earlier ++ more) := by
  by_cases advanced : ∃ visit ∈ more, visit.event = .advance
  · exact torn_append earlier advanced own
  · obtain ⟨before, visit, after, rfl, byImport, last⟩ := torn
    refine ⟨before, visit, after ++ more, by simp, byImport, ?_⟩
    intro other listed
    rcases List.mem_append.mp listed with old | new
    · exact last other old
    · exact fun same => advanced ⟨other, new, same⟩

theorem NeverFillsTorn.of_append (whole : NeverFillsTorn (earlier ++ later)) :
    NeverFillsTorn earlier := by
  rintro before visit after freshData freshChunk rfl event half
  exact whole before visit (after ++ later) freshData freshChunk (by simp) event half

end History

section Runs

variable {aead : Aead} {argon2id : Argon2id} {start : StateDir}

variable (aead argon2id start) in
/-- What is known of the live keys after some visits. -/
structure Traced (visited : List KeyVisit) (dir : StateDir) : Prop where
  both : ∀ {dataKey chunkKey}, dir (.live .data) = some dataKey →
    dir (.live .chunkId) = some chunkKey →
    OneSet aead argon2id start visited dataKey chunkKey
  dataOnly : ∀ {dataKey}, dir (.live .data) = some dataKey → dir (.live .chunkId) = none →
    Torn visited ∨ Pending visited dataKey
  chunkOnly : ∀ {chunkKey}, dir (.live .data) = none → dir (.live .chunkId) = some chunkKey →
    Torn visited

section Present

variable {visited : List KeyVisit} {dir : StateDir} {dataKey chunkKey : Bytes}

theorem Traced.of_both (data : dir (.live .data) = some dataKey)
    (chunk : dir (.live .chunkId) = some chunkKey)
    (oneSet : OneSet aead argon2id start visited dataKey chunkKey) :
    Traced aead argon2id start visited dir := by
  refine ⟨fun found other => ?_, fun _ absent => ?_, fun absent _ => ?_⟩
  · rw [data] at found
    rw [chunk] at other
    cases found
    cases other
    exact oneSet
  · rw [chunk] at absent
    cases absent
  · rw [data] at absent
    cases absent

theorem Traced.of_pending (data : dir (.live .data) = some dataKey)
    (chunk : dir (.live .chunkId) = none) (pending : Pending visited dataKey) :
    Traced aead argon2id start visited dir := by
  refine ⟨fun _ present => ?_, fun present _ => ?_, fun _ present => ?_⟩
  · rw [chunk] at present
    cases present
  · rw [data] at present
    cases present
    exact .inr pending
  · rw [chunk] at present
    cases present

end Present

variable {earlier later : List KeyVisit} {begun : KeyVisit} {done : List KeyStep}
  {machine : Machine}

/-- An import keeps the trace: once it has changed something, a missing key
is its own doing. -/
theorem Traced.importing {bytes passphrase : Bytes}
    (traced : Traced aead argon2id start earlier begun.before.dir)
    (ongoing : Ongoing aead argon2id begun later (.importKey bytes passphrase) done machine) :
    Traced aead argon2id start (earlier ++ begun :: later) machine.dir := by
  have own : ∀ visit ∈ begun :: later, visit.event = .advance → ByImport visit := by
    intro visit listed advance
    rcases List.mem_cons.mp listed with rfl | inside
    · rw [ongoing.event] at advance
      cases advance
    · exact ⟨advance, bytes, passphrase, ongoing.own visit inside advance⟩
  rcases ongoing.importing with same | ⟨begins, keys, opened, importing⟩
  · have liveSame : ∀ name, machine.dir (.live name) = begun.before.dir (.live name) :=
      fun name => same _ (live_notMem_temporaries name)
    refine ⟨?_, ?_, ?_⟩
    · intro dataKey chunkKey data chunk
      rw [liveSame] at data chunk
      exact (traced.both data chunk).append _
    · intro dataKey data chunk
      rw [liveSame] at data chunk
      by_cases advanced : ∃ visit ∈ begun :: later, visit.event = .advance
      · exact .inl (torn_append earlier advanced own)
      · rcases traced.dataOnly data chunk with torn | pending
        · exact .inl (torn.append own)
        · exact .inr (pending.append fun other listed byImport =>
            advanced ⟨other, listed, byImport.1⟩)
    · intro chunkKey data chunk
      rw [liveSame] at data chunk
      exact (traced.chunkOnly data chunk).append own
  · obtain ⟨visit, listed, advance⟩ := ongoing.advanced begins
    have torn : Torn (earlier ++ begun :: later) :=
      torn_append earlier ⟨visit, List.mem_cons_of_mem _ listed, advance⟩ own
    refine ⟨?_, fun _ _ => .inl torn, fun _ _ => torn⟩
    intro dataKey chunkKey data chunk
    obtain ⟨sameData, sameChunk⟩ := importing.live data chunk
    exact .imported begun (by simp) bytes passphrase ongoing.event keys opened sameData sameChunk

/-- So does an enrollment that does not begin on a torn directory. -/
theorem Traced.ensuring {freshData freshChunk : RawKey}
    (traced : Traced aead argon2id start earlier begun.before.dir)
    (ongoing : Ongoing aead argon2id begun later (.ensureDataKey freshData freshChunk) done
      machine)
    (whole : HoldsOne begun.before.dir → ¬ Torn earlier) :
    Traced aead argon2id start (earlier ++ begun :: later) machine.dir := by
  have notImport : ∀ visit ∈ begun :: later, ¬ ByImport visit := by
    rintro visit listed ⟨advance, bytes, passphrase, call⟩
    rcases List.mem_cons.mp listed with rfl | inside
    · rw [ongoing.event] at advance
      cases advance
    · rw [ongoing.own visit inside advance] at call
      cases call
  have pendingBefore : ∀ {dataKey}, begun.before.dir (.live .data) = some dataKey →
      begun.before.dir (.live .chunkId) = none → Pending earlier dataKey := by
    intro dataKey data chunk
    rcases traced.dataOnly data chunk with torn | pending
    · exact absurd torn (whole (by simp [HoldsOne, data, chunk]))
    · exact pending
  have chunkNotAlone : ∀ {chunkKey}, begun.before.dir (.live .data) = none →
      begun.before.dir (.live .chunkId) ≠ some chunkKey := by
    intro chunkKey data chunk
    exact absurd (traced.chunkOnly data chunk) (whole (by simp [HoldsOne, data, chunk]))
  rcases ongoing.ensuring.2 with same | ⟨vacant, data, chunk⟩ | ⟨data, stored, vacant, chunk⟩ |
    ⟨vacantData, vacantChunk, data, chunk⟩
  · refine ⟨?_, ?_, ?_⟩
    · intro dataKey chunkKey data chunk
      rw [same] at data chunk
      exact (traced.both data chunk).append _
    · intro dataKey data chunk
      rw [same] at data chunk
      exact .inr ((pendingBefore data chunk).append notImport)
    · intro chunkKey data chunk
      rw [same] at data chunk
      exact absurd chunk (chunkNotAlone data)
  · have neither : HoldsNeither begun.before.dir := by
      rintro (_ | _)
      · exact vacant
      · cases stored : begun.before.dir (.live .chunkId) with
        | none => rfl
        | some chunkKey => exact absurd stored (chunkNotAlone vacant)
    refine .of_pending data (chunk.trans (neither .chunkId)) ?_
    exact ⟨earlier, begun, later, freshData, freshChunk, rfl, ongoing.event, neither, rfl,
      fun other listed => notImport other (List.mem_cons_of_mem _ listed)⟩
  · obtain ⟨dataKey, present⟩ := stored
    obtain ⟨first, visit, between, firstData, firstChunk, rfl, event, neither, dataSame, since⟩ :=
      pendingBefore present vacant
    refine .of_both (data.trans present) chunk ?_
    exact .completed first between later visit begun (by simp) firstData firstChunk freshData
      freshChunk event neither since ongoing.event dataSame rfl
  · have neither : HoldsNeither begun.before.dir := by
      rintro (_ | _)
      · exact vacantData
      · exact vacantChunk
    refine .of_both data chunk ?_
    exact .generated begun (by simp) freshData freshChunk ongoing.event neither rfl rfl

theorem traced_of_run (paired : ¬ HoldsOne start) {events : List Event}
    (executed : run (step aead argon2id) (.idle start) events = some machine)
    (whole : NeverFillsTorn (visits (step aead argon2id) (.idle start) events)) :
    Traced aead argon2id start (visits (step aead argon2id) (.idle start) events)
      machine.dir := by
  refine run_strong_induction (fun events machine =>
    NeverFillsTorn (visits (step aead argon2id) (.idle start) events) →
    Traced aead argon2id start (visits (step aead argon2id) (.idle start) events)
      machine.dir) ?_ events executed whole
  intro events machine executed earlierHold whole
  rcases ongoing_of_run executed with ⟨rfl, _⟩ | ⟨earlier, begun, later, call, done, split, ongoing⟩
  · refine ⟨fun data chunk => .initial data chunk, fun data chunk => ?_, fun data chunk => ?_⟩
    · have half : HoldsOne start := by
        rw [HoldsOne, show start (.live .data) = _ from data,
          show start (.live .chunkId) = _ from chunk]
        nofun
      exact absurd half paired
    · have half : HoldsOne start := by
        rw [HoldsOne, show start (.live .data) = _ from data,
          show start (.live .chunkId) = _ from chunk]
        nofun
      exact absurd half paired
  · obtain ⟨first, second, rfl, reached, recorded, _⟩ := split_of_visits executed split
    rw [split] at whole ⊢
    have traced : Traced aead argon2id start earlier begun.before.dir := by
      rw [← recorded]
      exact earlierHold first _ second _ rfl reached (recorded ▸ whole.of_append)
    cases call with
    | importKey bytes passphrase => exact traced.importing ongoing
    | ensureDataKey freshData freshChunk =>
        exact traced.ensuring ongoing
          (whole earlier begun later freshData freshChunk rfl ongoing.event)

/-- The live keys are of one backup set in every run in which no enrollment
begins on a directory that an import left with one key. -/
theorem live_pair_is_of_one_set (paired : ¬ HoldsOne start) {events : List Event}
    (executed : run (step aead argon2id) (.idle start) events = some machine)
    (whole : NeverFillsTorn (visits (step aead argon2id) (.idle start) events))
    {dataKey chunkKey : Bytes} (data : machine.dir (.live .data) = some dataKey)
    (chunk : machine.dir (.live .chunkId) = some chunkKey) :
    OneSet aead argon2id start (visits (step aead argon2id) (.idle start) events)
      dataKey chunkKey :=
  (traced_of_run paired executed whole).both data chunk

end Runs

section Sample

/-- An enrollment that dies after its data key, and the enrollment that
completes it. -/
def resumedEnrollment : List Event :=
  [.begin (.ensureDataKey (.replicate 32 1) (.replicate 32 2)), .advance, .advance, .advance,
    .stop 0, .begin (.ensureDataKey (.replicate 32 3) (.replicate 32 4)), .advance, .advance,
    .advance]

theorem resumedEnrollment_pairs_its_keys :
    OneSet (.ofRecords sampleKeyfileRecords) sampleArgon2id (fun _ => none)
      (visits sampleStep (.idle fun _ => none) resumedEnrollment)
      (List.replicate 32 1) (List.replicate 32 4) := by
  have paired : ¬ HoldsOne fun _ => none := fun half => half rfl
  obtain ⟨final, executed, data, chunk⟩ : ∃ final,
      run sampleStep (.idle fun _ => none) resumedEnrollment = some final ∧
        final.dir (.live .data) = some (List.replicate 32 1) ∧
        final.dir (.live .chunkId) = some (List.replicate 32 4) :=
    exists_final_of_any (by decide +kernel)
  have enrolls : ((visits sampleStep (.idle fun _ => none) resumedEnrollment).all fun visit =>
      visit.before.call ∈ [none,
        some (.ensureDataKey (.replicate 32 1) (.replicate 32 2)),
        some (.ensureDataKey (.replicate 32 3) (.replicate 32 4))]) = true := by
    decide +kernel
  have whole : NeverFillsTorn (visits sampleStep (.idle fun _ => none) resumedEnrollment) := by
    rintro earlier visit later _ _ history _ _ ⟨before, torn, after, rfl, byImport, _⟩
    obtain ⟨_, bytes, passphrase, call⟩ := byImport
    have enrolling := of_decide_eq_true (List.all_eq_true.mp enrolls torn (by simp [history]))
    simp [call] at enrolling
  exact live_pair_is_of_one_set paired executed whole data chunk

/-- An import into an empty directory that dies after its data key, and an
enrollment after it. -/
def enrollmentAfterTornImport : List Event :=
  [.begin (.importKey sampleKeyfile sampleExport.passphrase), .advance, .advance, .advance,
    .stop 0, .begin (.ensureDataKey (.replicate 32 3) (.replicate 32 4)), .advance, .advance,
    .advance]

/-- The data key of the keyfile is live with the chunk-ID key of the
enrollment. -/
theorem torn_import_mixes_two_sets :
    ∃ final, run sampleStep (.idle fun _ => none) enrollmentAfterTornImport = some final ∧
      final.dir (.live .data) = some (List.replicate 32 1) ∧
      final.dir (.live .chunkId) = some (List.replicate 32 4) ∧
      ¬ OneSet (.ofRecords sampleKeyfileRecords) sampleArgon2id (fun _ => none)
        (visits sampleStep (.idle fun _ => none) enrollmentAfterTornImport)
        (List.replicate 32 1) (List.replicate 32 4) := by
  obtain ⟨final, executed, data, chunk⟩ : ∃ final,
      run sampleStep (.idle fun _ => none) enrollmentAfterTornImport = some final ∧
        final.dir (.live .data) = some (List.replicate 32 1) ∧
        final.dir (.live .chunkId) = some (List.replicate 32 4) :=
    exists_final_of_any (by decide +kernel)
  have unfit : ∀ visit ∈ visits sampleStep (.idle fun _ => none) enrollmentAfterTornImport,
      (match visit.event with
        | .begin (.importKey bytes passphrase) =>
            match openKeyfile (.ofRecords sampleKeyfileRecords) sampleArgon2id bytes passphrase with
            | .ok keys => keys.2.raw.toList != List.replicate 32 4
            | .error _ => true
        | .begin (.ensureDataKey _ _) => (visit.before.dir (.live .data)).isSome
        | _ => true) = true :=
    List.all_eq_true.mp (by decide +kernel)
  refine ⟨final, executed, data, chunk, ?_⟩
  rintro (⟨absent, _⟩ | ⟨visit, listed, bytes, passphrase, event, keys, opened, _, same⟩ |
    ⟨visit, listed, _, _, event, neither, _⟩ |
    ⟨earlier, between, later, visit, last, history, _, _, _, _, event, neither, _⟩)
  · cases absent
  · have other := unfit visit listed
    simp [event, opened, ← same] at other
  · have holds := unfit visit listed
    simp [event, neither .data] at holds
  · have holds := unfit visit (by simp [history])
    simp [event, neither .data] at holds

end Sample

end Busyncr.Client.KeyFiles
