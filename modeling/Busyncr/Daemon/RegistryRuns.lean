import Busyncr.Daemon.TokenRuns
import Busyncr.Lib.OrderedTable

/-!
What enrollments and revokes leave in the registry, in any order of their
steps: how many active clients a name can have, and that a revoked
certificate stays revoked.
-/

namespace Busyncr.Daemon

open Std Store Transition OrderedTable

section Names

variable {setup : Setup} {disk : Disk} {events : List IdentityEvent} {final : Identity}

/-- No name has two active clients. -/
def UniqueNames (registry : Registry) : Prop :=
  ∀ name first second : String, registry[first]? = some ⟨name, false⟩ →
    registry[second]? = some ⟨name, false⟩ → first = second

/-- The record of a certificate is written under the name. -/
def IssuesUnder (name fingerprint : String) (visit : IdentityVisit) : Prop :=
  ∃ token request, Issues token request fingerprint visit ∧
    visit.before.calls request = some (.cleared token name)

/-- When an `Enroll` writes its record, no record that another one has written
under the same name since its scan is active. -/
def NotOvertaken (visited : List IdentityVisit) : Prop :=
  ∀ before scan between issue after request order token name fingerprint,
    visited = before ++ scan :: (between ++ issue :: after) →
    scan.event = .scan request order → issue.event = .issue request fingerprint →
    issue.before.calls request = some (.cleared token name) →
    ∀ other ∈ between, ∀ overtaking, IssuesUnder name overtaking other →
      issue.before.registry[overtaking]? ≠ some ⟨name, false⟩

theorem NotOvertaken.of_append {visited more : List IdentityVisit}
    (notOvertaken : NotOvertaken (visited ++ more)) : NotOvertaken visited := by
  rintro before scan between issue after request order token name fingerprint rfl
  exact notOvertaken before scan between issue (after ++ more) request order token name
    fingerprint (by simp)

/-- The active clients of a name a request has been cleared for were written
since its scan. -/
def ClearedSince (visited : List IdentityVisit) (identity : Identity) : Prop :=
  ∀ request token name, identity.calls request = some (.cleared token name) →
    ∃ before scan between order, visited = before ++ scan :: between ∧
      scan.event = .scan request order ∧
      ∀ fingerprint, identity.registry[fingerprint]? = some ⟨name, false⟩ →
        ∃ other ∈ between, IssuesUnder name fingerprint other

theorem not_active_of_activeClientNamed {registry : Registry} {name : String}
    (free : ¬ activeClientNamed registry name = true) (fingerprint : String) :
    registry[fingerprint]? ≠ some ⟨name, false⟩ := by
  intro active
  refine free (List.any_eq_true.mpr ⟨(fingerprint, ⟨name, false⟩), ?_, by simp⟩)
  exact ExtTreeMap.mem_toList_iff_getElem?_eq_some.mpr active

theorem not_active_of_vetCsr {readCsr : ReadCsr} {registry : Registry} {csrPem name : String}
    (vetted : vetCsr readCsr registry csrPem = .ok name) (fingerprint : String) :
    registry[fingerprint]? ≠ some ⟨name, false⟩ := by
  unfold vetCsr at vetted
  split at vetted
  next => cases vetted
  next value _ =>
    split at vetted
    next => cases vetted
    next given _ =>
      split at vetted
      next => cases vetted
      next free =>
        cases vetted
        exact not_active_of_activeClientNamed free fingerprint

/-- An active client of the next state was active before, or is the one that
is being enrolled. -/
theorem active_of_step {identity next : Identity} {event : IdentityEvent}
    (stepped : Stepped setup identity event next) {name fingerprint : String}
    (active : next.registry[fingerprint]? = some ⟨name, false⟩) :
    identity.registry[fingerprint]? = some ⟨name, false⟩ ∨
      IssuesUnder name fingerprint ⟨identity, event, next⟩ := by
  rcases registry_step stepped with same | ⟨request, token, given, fresh, rfl, cleared, inserted⟩ |
    ⟨request, given, marked, rest, count, rfl, marking, inserted⟩
  · exact .inl (same ▸ active)
  · rw [inserted, getElem?_insert_eq] at active
    split at active
    next isFresh =>
      cases active
      exact .inr ⟨token, request, isFresh ▸ ⟨rfl, name, cleared⟩, cleared⟩
    next => exact .inl active
  · rw [inserted, getElem?_insert_eq] at active
    split at active
    next => cases active
    next => exact .inl active

theorem clearedSince_step {visited : List IdentityVisit} {identity next : Identity}
    {event : IdentityEvent} (since : ClearedSince visited identity)
    (stepped : Stepped setup identity event next) :
    ClearedSince (visited ++ [⟨identity, event, next⟩]) next := by
  intro request token name cleared
  have taken := callStep_of_stepped stepped request
  rw [cleared] at taken
  generalize found : identity.calls request = call at taken
  cases taken with
  | same =>
      obtain ⟨before, scan, between, order, rfl, scanned, written⟩ := since request token name found
      refine ⟨before, scan, between ++ [⟨identity, event, next⟩], order, by simp, scanned, ?_⟩
      intro fingerprint active
      rcases active_of_step stepped active with old | issues
      · obtain ⟨other, listed, issues⟩ := written fingerprint old
        exact ⟨other, List.mem_append_left _ listed, issues⟩
      · exact ⟨_, List.mem_append_right _ (List.mem_singleton_self _), issues⟩
  | cleared order _ csrPem _ vetted =>
      refine ⟨visited, _, [], order, rfl, rfl, fun fingerprint active => ?_⟩
      rcases active_of_step stepped active with old | ⟨_, _, ⟨issues, _⟩, _⟩
      · exact absurd old (not_active_of_vetCsr vetted fingerprint)
      · cases issues

theorem clearedSince_of_run
    (executed : run (identityStep setup) (.init disk) events = some final) :
    ClearedSince (visits (identityStep setup) (.init disk) events) final := by
  refine run_induction (fun events identity =>
    ClearedSince (visits (identityStep setup) (.init disk) events) identity) ?_ ?_ executed
  · intro request token name cleared
    cases cleared
  intro events identity event next reached since stepped
  rw [visits_concat reached stepped]
  exact clearedSince_step since (stepped_of_identityStep stepped)

/-- At most one active client has a name, in every run in which no `Enroll`
writes its record over one that was enrolled under its name since its
scan. -/
theorem names_unique_unless_overtaken
    (executed : run (identityStep setup) (.init disk) events = some final)
    (notOvertaken : NotOvertaken (visits (identityStep setup) (.init disk) events)) :
    UniqueNames final.registry := by
  refine run_induction (fun events identity =>
    NotOvertaken (visits (identityStep setup) (.init disk) events) →
      UniqueNames identity.registry) ?_ ?_ executed notOvertaken
  · intro _ name first second active
    simp [Identity.init] at active
  · intro events identity event next reached held stepped notOvertaken
    rw [visits_concat reached stepped] at notOvertaken
    have unique := held notOvertaken.of_append
    have effect := stepped_of_identityStep stepped
    have vacant : ∀ {name fingerprint}, IssuesUnder name fingerprint ⟨identity, event, next⟩ →
        ∀ other : String, identity.registry[other]? ≠ some ⟨name, false⟩ := by
      rintro name fingerprint ⟨token, request, ⟨issues, _⟩, cleared⟩ other active
      obtain ⟨before, scan, between, order, split, scanned, written⟩ :=
        clearedSince_of_run reached request token name cleared
      obtain ⟨overtaking, listed, under⟩ := written other active
      exact notOvertaken before scan between ⟨identity, event, next⟩ [] request order token name
        fingerprint (by simp [split]) scanned issues cleared overtaking listed other under active
    intro name first second firstActive secondActive
    rcases active_of_step effect firstActive with oldFirst | newFirst
    · rcases active_of_step effect secondActive with oldSecond | newSecond
      · exact unique name first second oldFirst oldSecond
      · exact absurd oldFirst (vacant newSecond first)
    · rcases active_of_step effect secondActive with oldSecond | newSecond
      · exact absurd oldSecond (vacant newFirst second)
      · obtain ⟨_, _, ⟨firstIssue, _⟩, _⟩ := newFirst
        obtain ⟨_, _, ⟨secondIssue, _⟩, _⟩ := newSecond
        exact (IdentityEvent.issue.inj (firstIssue.symm.trans secondIssue)).2

/-- A signed CSR with the Common Name `desktop`. -/
def desktopCsr : String :=
  "-----BEGIN CERTIFICATE REQUEST-----\n" ++
  "MIGRMEUCAQAwEjEQMA4GA1UEAwwHZGVza3RvcDAqMAUGAytlcAMhANtFic1t9BBv\n" ++
  "CXrV5iPF91kbaprj70d7Grlixb9N+NGCoAAwBQYDK2VwA0EABnK9oT0pNwgQjuaZ\n" ++
  "pEtTU9tIyhqzaUZFPwZQOf7OFM66ZZuKNm8uQmGyS0326laWyWlqbLYRjG33v8nO\n" ++
  "anWcCA==\n" ++
  "-----END CERTIFICATE REQUEST-----\n"

/-- The library on both CSRs. -/
def twoCsrSetup : Setup where
  blake3 := sampleSetup.blake3
  readCsr csrPem :=
    if csrPem = desktopCsr then some (some (.utf8String "desktop"))
    else sampleSetup.readCsr csrPem
  autoPrune := sampleSetup.autoPrune

/-- The fingerprint of the last certificate below. -/
def thirdFingerprint : String := "c3c3c3c3c3c3c3c3c3c3c3c3c3c3c3c3c3c3c3c3c3c3c3c3c3c3c3c3c3c3c3c3"

/-- Two requests under different names scan before either has written its
record; then one client is revoked and enrolled again. -/
def overlappingNames : List IdentityEvent :=
  [.mint sampleToken, .mint otherToken, .enroll 0 sampleToken sampleCsr,
    .enroll 1 otherToken desktopCsr, .consume 0, .consume 1, .scan 0 [], .scan 1 [],
    .issue 0 sampleFingerprint, .issue 1 otherFingerprint, .revoke 2 "laptop",
    .scan 2 [sampleFingerprint, otherFingerprint], .mint sampleToken,
    .enroll 3 sampleToken sampleCsr, .consume 3, .mark 2,
    .scan 3 [otherFingerprint, sampleFingerprint], .mark 2,
    .issue 3 thirdFingerprint]

/-- The name a request was cleared for is not in use. -/
def Identity.clearsFreeName (identity : Identity) (request : Nat) : Bool :=
  match identity.calls request with
  | some (.cleared _ name) => !activeClientNamed identity.registry name
  | _ => true

/-- A record is written only while its name is not in use. -/
def writesFreeName (visit : Visit Identity IdentityEvent) : Bool :=
  match visit.event with
  | .issue request _ => visit.before.clearsFreeName request
  | _ => true

theorem overlappingNames_stay_unique :
    ∃ final, run (identityStep twoCsrSetup) (.init .empty) overlappingNames = some final ∧
      final.registry[otherFingerprint]? = some ⟨"desktop", false⟩ ∧
      final.registry[thirdFingerprint]? = some ⟨"laptop", false⟩ ∧ UniqueNames final.registry := by
  obtain ⟨final, executed, desktop, laptop⟩ : ∃ final,
      run (identityStep twoCsrSetup) (.init .empty) overlappingNames = some final ∧
        final.registry[otherFingerprint]? = some ⟨"desktop", false⟩ ∧
        final.registry[thirdFingerprint]? = some ⟨"laptop", false⟩ :=
    exists_final_of_any (by decide +kernel)
  have free : ∀ visit ∈ visits (identityStep twoCsrSetup) (.init .empty) overlappingNames,
      writesFreeName visit = true :=
    List.all_eq_true.mp (by decide +kernel)
  refine ⟨final, executed, desktop, laptop, names_unique_unless_overtaken executed ?_⟩
  intro before scan between issue after request order token name fingerprint split _ issues
    cleared _ _ overtaking _
  have checked := free issue (by simp [split])
  simp only [writesFreeName, issues, Identity.clearsFreeName, cleared, Bool.not_eq_true',
    ← Bool.not_eq_true] at checked
  exact not_active_of_activeClientNamed checked overtaking

/-- Two requests with a token each find the same name free before either has
written its record. -/
def overlappingEnrolls : List IdentityEvent :=
  [.mint sampleToken, .mint otherToken, .enroll 0 sampleToken sampleCsr,
    .enroll 1 otherToken sampleCsr, .consume 0, .consume 1, .scan 0 [], .scan 1 [],
    .issue 0 sampleFingerprint, .issue 1 otherFingerprint]

theorem overlappingEnrolls_share_a_name :
    ∃ final, run (identityStep sampleSetup) (.init .empty) overlappingEnrolls = some final ∧
      final.registry[sampleFingerprint]? = some ⟨"laptop", false⟩ ∧
      final.registry[otherFingerprint]? = some ⟨"laptop", false⟩ ∧ ¬ UniqueNames final.registry := by
  obtain ⟨final, executed, first, second⟩ : ∃ final,
      run (identityStep sampleSetup) (.init .empty) overlappingEnrolls = some final ∧
        final.registry[sampleFingerprint]? = some ⟨"laptop", false⟩ ∧
        final.registry[otherFingerprint]? = some ⟨"laptop", false⟩ :=
    exists_final_of_any (by decide +kernel)
  refine ⟨final, executed, first, second, fun unique => ?_⟩
  exact absurd (unique _ _ _ first second) (by decide)

end Names

section Revocation

variable {setup : Setup} {disk : Disk} {events : List IdentityEvent}
  {identity next final : Identity} {event : IdentityEvent}

/-- The fingerprint of an issued certificate is new. -/
def FreshFingerprints (visited : List IdentityVisit) : Prop :=
  ∀ visit ∈ visited, ∀ request fingerprint, visit.event = .issue request fingerprint →
    fingerprint ∉ visit.before.registry

/-- A certificate is registered under the name, revoked or not. -/
def RegisteredAs (name : String) (registry : Registry) (fingerprint : String) : Prop :=
  ∃ revoked, registry[fingerprint]? = some ⟨name, revoked⟩

/-- The certificates a revoke is about to mark are registered under its
name. -/
def MarksOwn (identity : Identity) : Prop :=
  ∀ request name found count, identity.calls request = some (.marking name found count) →
    ∀ fingerprint ∈ found, RegisteredAs name identity.registry fingerprint

/-- A record keeps its name, and once revoked it stays so. -/
theorem record_of_step (stepped : Stepped setup identity event next) (marksOwn : MarksOwn identity)
    (fresh : ∀ request fingerprint, event = .issue request fingerprint →
      fingerprint ∉ identity.registry) {fingerprint name : String} {revoked : Bool}
    (registered : identity.registry[fingerprint]? = some ⟨name, revoked⟩) :
    next.registry[fingerprint]? = some ⟨name, revoked⟩ ∨
      next.registry[fingerprint]? = some ⟨name, true⟩ := by
  rcases registry_step stepped with same | ⟨request, token, given, issued, rfl, _, inserted⟩ |
    ⟨request, given, marked, rest, count, rfl, marking, inserted⟩
  · exact .inl (same ▸ registered)
  · have different : issued ≠ fingerprint := by
      rintro rfl
      refine fresh request issued rfl (ExtTreeMap.mem_iff_isSome_getElem?.mpr ?_)
      rw [registered]
      rfl
    rw [inserted, getElem?_insert_eq, if_neg different]
    exact .inl registered
  · rw [inserted, getElem?_insert_eq]
    split
    next same =>
      subst same
      obtain ⟨_, own⟩ := marksOwn request given _ count marking marked (by simp)
      rw [registered] at own
      cases own
      exact .inr rfl
    next => exact .inl registered

theorem registeredAs_of_step (stepped : Stepped setup identity event next)
    (marksOwn : MarksOwn identity)
    (fresh : ∀ request fingerprint, event = .issue request fingerprint →
      fingerprint ∉ identity.registry) {fingerprint name : String}
    (registered : RegisteredAs name identity.registry fingerprint) :
    RegisteredAs name next.registry fingerprint := by
  obtain ⟨revoked, found⟩ := registered
  rcases record_of_step stepped marksOwn fresh found with kept | marked
  · exact ⟨revoked, kept⟩
  · exact ⟨true, marked⟩

theorem marksOwn_step (stepped : Stepped setup identity event next) (marksOwn : MarksOwn identity)
    (fresh : ∀ request fingerprint, event = .issue request fingerprint →
      fingerprint ∉ identity.registry) : MarksOwn next := by
  intro request name found count marking fingerprint listed
  refine registeredAs_of_step stepped marksOwn fresh ?_
  have taken := callStep_of_stepped stepped request
  rw [marking] at taken
  generalize call : identity.calls request = before at taken
  cases taken with
  | same => exact marksOwn request name found count call fingerprint listed
  | surveyed order _ _ => exact ⟨false, (mem_activeUnder.mp listed).2⟩
  | marked _ first _ earlier =>
      exact marksOwn request name (first :: found) earlier call fingerprint
        (List.mem_cons_of_mem _ listed)

theorem marksOwn_of_run
    (executed : run (identityStep setup) (.init disk) events = some final)
    (fresh : FreshFingerprints (visits (identityStep setup) (.init disk) events)) :
    MarksOwn final := by
  refine run_invariant MarksOwn ?_ ?_ executed
  · intro request name found count marking
    cases marking
  · intro visit visited marksOwn
    exact marksOwn_step (stepped_of_identityStep (visit_step visited)) marksOwn
      (fresh visit visited)

theorem registry_of_mark {request count : Nat} {name fingerprint : String} {rest : List String}
    (stepped : Stepped setup identity (.mark request) next)
    (marking : identity.calls request = some (.marking name (fingerprint :: rest) count)) :
    next.registry = identity.registry.insert fingerprint ⟨name, true⟩ := by
  cases stepped with
  | marked _ _ _ _ _ found =>
      rw [marking] at found
      cases found
      rfl
  | returned _ _ _ found =>
      rw [marking] at found
      cases found

/-- The call is a revoke of the name, if it still is one. -/
structure RevokeOf (request : Nat) (name : String) (identity : Identity) : Prop where
  begun : identity.calls request ≠ none
  revoking : ∀ given, identity.calls request = some (.revoking given) → given = name
  marking : ∀ given found count, identity.calls request = some (.marking given found count) →
    given = name

theorem begun_of_step (stepped : Stepped setup identity event next) {request : Nat}
    (begun : identity.calls request ≠ none) : next.calls request ≠ none := by
  have taken := callStep_of_stepped stepped request
  intro absent
  rw [absent] at taken
  generalize call : identity.calls request = before at taken
  cases taken
  exact begun call

theorem new_of_begin {request : Nat} {name : String}
    (stepped : Stepped setup identity (.revoke request name) next) :
    identity.calls request = none := by
  cases stepped with
  | revoking _ _ new => exact new

theorem revokeOf_of_begin {request : Nat} {name : String}
    (stepped : Stepped setup identity (.revoke request name) next) :
    RevokeOf request name next := by
  cases stepped
  refine ⟨by simp, ?_, ?_⟩
  · intro given revoking
    simp only [setCall_calls, if_true, Option.some.injEq, Call.revoking.injEq] at revoking
    exact revoking.symm
  · intro given found count marking
    simp at marking

theorem RevokeOf.step {request : Nat} {name : String} (revokeOf : RevokeOf request name identity)
    (stepped : Stepped setup identity event next) : RevokeOf request name next := by
  have taken := callStep_of_stepped stepped request
  generalize call : identity.calls request = before at taken
  generalize called : next.calls request = after at taken
  refine ⟨begun_of_step stepped revokeOf.begun, ?_, ?_⟩
  · intro given revoking
    rw [called] at revoking
    subst revoking
    cases taken with
    | same => exact revokeOf.revoking given call
    | revoking => exact absurd call revokeOf.begun
  · intro given found count marking
    rw [called] at marking
    subst marking
    cases taken with
    | same => exact revokeOf.marking given found count call
    | surveyed => exact revokeOf.revoking given call
    | marked => exact revokeOf.marking given _ _ call

/-- How a revoke stands to a certificate that was registered under its name
when it began. -/
structure Progress (request : Nat) (name fingerprint : String) (identity : Identity) : Prop where
  revokeOf : RevokeOf request name identity
  registered : RegisteredAs name identity.registry fingerprint
  marking : ∀ given found count, identity.calls request = some (.marking given found count) →
    identity.registry[fingerprint]? = some ⟨name, true⟩ ∨ fingerprint ∈ found
  revoked : ∀ given count, identity.calls request = some (.revoked given count) →
    identity.registry[fingerprint]? = some ⟨name, true⟩

theorem Progress.step {request : Nat} {name fingerprint : String}
    (progress : Progress request name fingerprint identity)
    (stepped : Stepped setup identity event next) (marksOwn : MarksOwn identity)
    (fresh : ∀ request fingerprint, event = .issue request fingerprint →
      fingerprint ∉ identity.registry) : Progress request name fingerprint next := by
  have stays : identity.registry[fingerprint]? = some ⟨name, true⟩ →
      next.registry[fingerprint]? = some ⟨name, true⟩ := by
    intro marked
    rcases record_of_step stepped marksOwn fresh marked with kept | again
    · exact kept
    · exact again
  have taken := callStep_of_stepped stepped request
  generalize call : identity.calls request = before at taken
  generalize called : next.calls request = after at taken
  refine ⟨progress.revokeOf.step stepped,
    registeredAs_of_step stepped marksOwn fresh progress.registered, ?_, ?_⟩
  · intro given found count marking
    rw [called] at marking
    subst marking
    cases taken with
    | same => exact (progress.marking given found count call).imp stays id
    | surveyed order _ listed =>
        obtain rfl := progress.revokeOf.revoking given call
        obtain ⟨revoked, known⟩ := progress.registered
        cases revoked with
        | true => exact .inl (stays known)
        | false =>
            refine .inr (mem_activeUnder.mpr ⟨?_, known⟩)
            rw [listed.mem_iff, ExtTreeMap.mem_keys, ExtTreeMap.mem_iff_isSome_getElem?, known]
            rfl
    | marked _ first _ earlier =>
        obtain rfl := progress.revokeOf.marking given (first :: found) earlier call
        rcases progress.marking given (first :: found) earlier call with marked | listed
        · exact .inl (stays marked)
        · rcases List.mem_cons.mp listed with rfl | later
          · rw [registry_of_mark stepped call, getElem?_insert_eq, if_pos rfl]
            exact .inl rfl
          · exact .inr later
  · intro given count revoked
    rw [called] at revoked
    subst revoked
    cases taken with
    | same => exact stays (progress.revoked given count call)
    | returned =>
        rcases progress.marking given [] count call with marked | listed
        · exact stays marked
        · cases listed

theorem progress_of_begin {request : Nat} {name fingerprint : String}
    (stepped : Stepped setup identity (.revoke request name) next)
    (registered : RegisteredAs name identity.registry fingerprint) :
    Progress request name fingerprint next := by
  refine ⟨revokeOf_of_begin stepped, ?_, ?_, ?_⟩
  · cases stepped
    exact registered
  · intro given found count marking
    cases stepped
    simp at marking
  · intro given count revoked
    cases stepped
    simp at revoked

section Runs

variable (executed : run (identityStep setup) (.init disk) events = some final)
  (fresh : FreshFingerprints (visits (identityStep setup) (.init disk) events))

include executed fresh

theorem marksOwn_before {visit : IdentityVisit}
    (listed : visit ∈ visits (identityStep setup) (.init disk) events) :
    MarksOwn visit.before := by
  obtain ⟨before, after, split⟩ := List.append_of_mem listed
  obtain ⟨first, second, _, reached, rfl, _⟩ := split_of_visits executed split
  refine marksOwn_of_run reached fun earlier visited => fresh earlier ?_
  rw [split]
  exact List.mem_append_left _ visited

variable {begun : IdentityVisit} {request : Nat} {name : String}
  (listed : begun ∈ visits (identityStep setup) (.init disk) events)
  (begins : begun.event = .revoke request name)

include listed begins

/-- A certificate that was registered under the name when a revoke began is
revoked once that revoke has returned. -/
theorem revoked_of_returned {given fingerprint : String} {count : Nat}
    (returned : final.calls request = some (.revoked given count))
    (registered : RegisteredAs name begun.before.registry fingerprint) :
    final.registry[fingerprint]? = some ⟨name, true⟩ := by
  have stepped := stepped_of_identityStep (visit_step listed)
  rw [begins] at stepped
  obtain ⟨before, after, split⟩ := List.append_of_mem listed
  obtain ⟨first, second, _, _, _, onward, rfl⟩ := split_of_visits executed split
  have later : ∀ visit ∈ visits (identityStep setup) begun.after second,
      visit ∈ visits (identityStep setup) (.init disk) events := by
    intro visit visited
    rw [split]
    exact List.mem_append_right _ (List.mem_cons_of_mem _ visited)
  have finished : Progress request name fingerprint final := by
    refine run_invariant (Progress request name fingerprint)
      (progress_of_begin stepped registered) ?_ onward
    intro visit visited progress
    exact progress.step (stepped_of_identityStep (visit_step visited))
      (marksOwn_before executed fresh (later visit visited)) (fresh visit (later visit visited))
  exact finished.revoked given count returned

/-- A revoke writes no record of another name. -/
theorem other_names_kept {visit : IdentityVisit}
    (visited : visit ∈ visits (identityStep setup) (.init disk) events)
    (marks : visit.event = .mark request) {fingerprint : String} {record : ClientRecord}
    (found : visit.before.registry[fingerprint]? = some record) (other : record.name ≠ name) :
    visit.after.registry[fingerprint]? = some record := by
  have stepped := stepped_of_identityStep (visit_step visited)
  rcases registry_step stepped with same | ⟨_, _, _, _, issues, _⟩ |
    ⟨marking, given, marked, rest, count, marksNow, call, inserted⟩
  · rwa [same]
  · cases marks.symm.trans issues
  · cases marks.symm.trans marksNow
    have ours : RevokeOf request name visit.before := by
      have begin := stepped_of_identityStep (visit_step listed)
      rw [begins] at begin
      rcases visit_order listed visited with rfl | ⟨_, _, _, split⟩ | ⟨_, _, _, split⟩
      · cases begins.symm.trans marks
      · obtain ⟨middle, between, _⟩ := run_between executed split
        refine run_invariant (RevokeOf request name) (revokeOf_of_begin begin) ?_ between
        intro step taken revokeOf
        exact revokeOf.step (stepped_of_identityStep (visit_step taken))
      · obtain ⟨middle, between, _⟩ := run_between executed split
        have already : visit.after.calls request ≠ none :=
          begun_of_step stepped (by rw [call]; nofun)
        have still : begun.before.calls request ≠ none := by
          refine run_invariant (fun identity => identity.calls request ≠ none) already ?_ between
          intro step taken held
          exact begun_of_step (stepped_of_identityStep (visit_step taken)) held
        exact absurd (new_of_begin begin) still
    obtain rfl := ours.marking given _ count call
    obtain ⟨revoked, own⟩ :=
      marksOwn_before executed fresh visited request given _ count call marked (by simp)
    have different : marked ≠ fingerprint := by
      rintro rfl
      rw [found] at own
      cases own
      exact other rfl
    rw [inserted, getElem?_insert_eq, if_neg different, found]

end Runs

theorem serve_of_refused {registry : Registry} {fingerprint : Option String}
    (unfit : fingerprint = none ∨ ∃ presented, fingerprint = some presented ∧
      (clientStatus registry presented = .revoked ∨ clientStatus registry presented = .unknown)) :
    ∃ status, ∀ rpc nowMs disk,
      serve setup (some registry) fingerprint nowMs disk rpc = (.error status, disk) := by
  rcases unfit with rfl | ⟨presented, rfl, revoked | unknown⟩
  · exact ⟨.unauthenticated, fun _ _ _ => rfl⟩
  · exact ⟨.permissionDenied, fun _ _ _ => by simp only [serve, authenticate, revoked]⟩
  · exact ⟨.unauthenticated, fun _ _ _ => by simp only [serve, authenticate, unknown]⟩

/-- Revocation is complete and permanent: once a revoke has returned, every
certificate that was registered under its name when it began is revoked, and
it has written no record of another name.  A request with a revoked or an
unregistered certificate, or with none, is refused before the store is
looked at. -/
theorem revocation_is_complete_and_permanent
    (executed : run (identityStep setup) (.init disk) events = some final)
    (fresh : FreshFingerprints (visits (identityStep setup) (.init disk) events)) :
    (∀ begun ∈ visits (identityStep setup) (.init disk) events, ∀ request name,
      begun.event = .revoke request name →
      (∀ given count fingerprint, final.calls request = some (.revoked given count) →
        RegisteredAs name begun.before.registry fingerprint →
        clientStatus final.registry fingerprint = .revoked) ∧
      ∀ visit ∈ visits (identityStep setup) (.init disk) events,
        (visit.event = .mark request ∨ ∃ order, visit.event = .scan request order) →
        ∀ (fingerprint : String) (record : ClientRecord),
          visit.before.registry[fingerprint]? = some record → record.name ≠ name →
          visit.after.registry[fingerprint]? = some record) ∧
    ∀ fingerprint : Option String,
      (fingerprint = none ∨ ∃ presented, fingerprint = some presented ∧
        (clientStatus final.registry presented = .revoked ∨
          clientStatus final.registry presented = .unknown)) →
      ∃ status, ∀ rpc nowMs disk,
        serve setup (some final.registry) fingerprint nowMs disk rpc = (.error status, disk) := by
  refine ⟨?_, fun fingerprint unfit => serve_of_refused unfit⟩
  intro begun listed request name begins
  refine ⟨?_, ?_⟩
  · intro given count fingerprint returned registered
    have marked := revoked_of_returned executed fresh listed begins returned registered
    simp [clientStatus, marked]
  · rintro visit visited (marks | ⟨order, scans⟩) fingerprint record found other
    · exact other_names_kept executed fresh listed begins visited marks found other
    · have stepped := stepped_of_identityStep (visit_step visited)
      rcases registry_step stepped with same | ⟨_, _, _, _, issues, _⟩ | ⟨_, _, _, _, _, marks, _⟩
      · rwa [same]
      · cases scans.symm.trans issues
      · cases scans.symm.trans marks

/-- A client is enrolled, revoked, and enrolled again under its name. -/
def reenrollment : List IdentityEvent :=
  [.mint sampleToken, .enroll 0 sampleToken sampleCsr, .consume 0, .scan 0 [], .issue 0 sampleFingerprint,
    .revoke 1 "laptop", .scan 1 [sampleFingerprint], .mint otherToken, .enroll 2 otherToken sampleCsr,
    .consume 2, .mark 1, .scan 2 [sampleFingerprint], .mark 1, .issue 2 otherFingerprint]

theorem reenrollment_keeps_revoked_client_out :
    ∃ final, run (identityStep sampleSetup) (.init .empty) reenrollment = some final ∧
      clientStatus final.registry sampleFingerprint = .revoked ∧
      clientStatus final.registry otherFingerprint = .active ∧
      ∃ status, ∀ rpc nowMs disk,
        serve sampleSetup (some final.registry) (some sampleFingerprint) nowMs disk rpc =
          (.error status, disk) := by
  obtain ⟨final, executed, returned, active⟩ : ∃ final,
      run (identityStep sampleSetup) (.init .empty) reenrollment = some final ∧
        final.calls 1 = some (.revoked "laptop" 1) ∧
        clientStatus final.registry otherFingerprint = .active :=
    exists_final_of_any (by decide +kernel)
  have fresh : FreshFingerprints
      (visits (identityStep sampleSetup) (.init .empty) reenrollment) := by
    have checked : ∀ visit ∈ visits (identityStep sampleSetup) (.init .empty) reenrollment,
        (match visit.event with
          | .issue _ fingerprint => !visit.before.registry.contains fingerprint
          | _ => true) = true :=
      List.all_eq_true.mp (by decide +kernel)
    intro visit listed request fingerprint issues
    have new := checked visit listed
    rw [issues, Bool.not_eq_true'] at new
    rw [← ExtTreeMap.contains_iff_mem, new]
    nofun
  have holds := revocation_is_complete_and_permanent executed fresh
  obtain ⟨begun, listed, begins, registered⟩ :
      ∃ begun ∈ visits (identityStep sampleSetup) (.init .empty) reenrollment,
        begun.event = .revoke 1 "laptop" ∧
          begun.before.registry[sampleFingerprint]? = some ⟨"laptop", false⟩ := by
    have present : (visits (identityStep sampleSetup) (.init .empty) reenrollment).any
        (fun visit => visit.event = .revoke 1 "laptop" ∧
          visit.before.registry[sampleFingerprint]? = some ⟨"laptop", false⟩) = true := by
      decide +kernel
    simpa using present
  have revoked := (holds.1 begun listed 1 "laptop" begins).1 _ _ _ returned ⟨false, registered⟩
  exact ⟨final, executed, revoked, active, holds.2 _ (.inr ⟨_, rfl, .inl revoked⟩)⟩

end Revocation

end Busyncr.Daemon
