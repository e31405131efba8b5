import Busyncr.Client.Certificates
import Busyncr.Daemon.RegistryRuns

/-!
Whom the daemon admits: in every run the clients that were enrolled and that
no revoke has marked, under the name they enrolled with.
-/

namespace Busyncr.Daemon

open Std Store Transition OrderedTable Certificates

/-- A revoke writes the record of the certificate. -/
def Marks (name fingerprint : String) (visit : IdentityVisit) : Prop :=
  ∃ request rest count, visit.event = .mark request ∧
    visit.before.calls request = some (.marking name (fingerprint :: rest) count)

section Standing

variable {setup : Setup} {disk : Disk} {events : List IdentityEvent} {final : Identity}
  {fingerprint : String}

/-- A visit enrolls the certificate, marks it, or leaves its record. -/
theorem record_of_visit {visit : IdentityVisit} (fingerprint : String)
    (stepped : Stepped setup visit.before visit.event visit.after) :
    (∃ name, IssuesUnder name fingerprint visit ∧
      visit.after.registry[fingerprint]? = some ⟨name, false⟩) ∨
    (∃ name, Marks name fingerprint visit ∧
      visit.after.registry[fingerprint]? = some ⟨name, true⟩) ∨
    (∀ name, ¬ IssuesUnder name fingerprint visit) ∧ (∀ name, ¬ Marks name fingerprint visit) ∧
      visit.after.registry[fingerprint]? = visit.before.registry[fingerprint]? := by
  obtain ⟨before, event, after⟩ := visit
  dsimp only at stepped
  cases stepped with
  | issued request token name issued cleared =>
      by_cases same : issued = fingerprint
      · subst same
        refine .inl ⟨name, ⟨token, request, ⟨rfl, ?_⟩, cleared⟩, ?_⟩
        · exact ⟨name, cleared⟩
        · simp
      · refine .inr (.inr ⟨?_, ?_, ?_⟩)
        · rintro given ⟨presented, other, ⟨issues, -⟩, -⟩
          cases issues
          exact same rfl
        · rintro given ⟨other, rest, count, marks, -⟩
          cases marks
        · simp [getElem?_insert_eq, same]
  | marked request name marked rest count marking =>
      by_cases same : marked = fingerprint
      · subst same
        exact .inr (.inl ⟨name, ⟨request, rest, count, rfl, marking⟩, by simp⟩)
      · refine .inr (.inr ⟨?_, ?_, ?_⟩)
        · rintro given ⟨presented, other, ⟨issues, -⟩, -⟩
          cases issues
        · rintro given ⟨other, others, counted, marks, call⟩
          cases marks
          cases marking.symm.trans call
          exact same rfl
        · simp [getElem?_insert_eq, same]
  | returned request name count marking =>
      refine .inr (.inr ⟨?_, ?_, rfl⟩)
      · rintro given ⟨presented, other, ⟨issues, -⟩, -⟩
        cases issues
      · rintro given ⟨other, others, counted, marks, call⟩
        cases marks
        cases marking.symm.trans call
  | _ =>
      refine .inr (.inr ⟨?_, ?_, rfl⟩)
      · rintro given ⟨presented, other, ⟨issues, -⟩, -⟩
        cases issues
      · rintro given ⟨other, others, counted, marks, -⟩
        cases marks

/-- What a history of visits says of a certificate. -/
inductive Standing (fingerprint : String) (visited : List IdentityVisit) :
    Option ClientRecord → Prop where
  | unknown : (∀ visit ∈ visited, ∀ name, ¬ IssuesUnder name fingerprint visit) →
      (∀ visit ∈ visited, ∀ name, ¬ Marks name fingerprint visit) →
      Standing fingerprint visited none
  | enrolled {name : String} : (∃ visit ∈ visited, IssuesUnder name fingerprint visit) →
      (∀ visit ∈ visited, ∀ name, ¬ Marks name fingerprint visit) →
      Standing fingerprint visited (some ⟨name, false⟩)
  | revoked {name : String} : (∃ visit ∈ visited, ∃ name, Marks name fingerprint visit) →
      Standing fingerprint visited (some ⟨name, true⟩)

theorem Standing.concat {visited : List IdentityVisit} {record after : Option ClientRecord}
    {visit : IdentityVisit} (standing : Standing fingerprint visited record)
    (found : visit.before.registry[fingerprint]? = record)
    (moved : visit.after.registry[fingerprint]? = after)
    (fresh : ∀ request issued, visit.event = .issue request issued →
      issued ∉ visit.before.registry)
    (stepped : Stepped setup visit.before visit.event visit.after) :
    Standing fingerprint (visited ++ [visit]) after := by
  rcases record_of_visit fingerprint stepped with ⟨name, issues, now⟩ | ⟨name, marks, now⟩ |
    ⟨unissued, unmarked, same⟩
  · obtain rfl := moved.symm.trans now
    have absent : record = none := by
      obtain ⟨token, request, ⟨event, -⟩, -⟩ := issues
      rw [← found]
      exact ExtTreeMap.getElem?_eq_none (fresh request fingerprint event)
    subst absent
    cases standing with
    | unknown unissued unmarked =>
        refine .enrolled ⟨visit, by simp, issues⟩ ?_
        intro other listed given marks
        rcases List.mem_append.mp listed with earlier | last
        · exact unmarked other earlier given marks
        · obtain rfl := List.mem_singleton.mp last
          obtain ⟨token, request, ⟨event, -⟩, -⟩ := issues
          obtain ⟨marking, rest, count, marked, -⟩ := marks
          cases event.symm.trans marked
  · obtain rfl := moved.symm.trans now
    exact .revoked ⟨visit, by simp, name, marks⟩
  · obtain rfl := moved.symm.trans (same.trans found)
    cases standing with
    | unknown unissuedBefore unmarkedBefore =>
        refine .unknown ?_ ?_
        · intro other listed
          rcases List.mem_append.mp listed with earlier | last
          · exact unissuedBefore other earlier
          · exact List.mem_singleton.mp last ▸ unissued
        · intro other listed
          rcases List.mem_append.mp listed with earlier | last
          · exact unmarkedBefore other earlier
          · exact List.mem_singleton.mp last ▸ unmarked
    | enrolled issued unmarkedBefore =>
        obtain ⟨enrolling, earlier, issues⟩ := issued
        refine .enrolled ⟨enrolling, List.mem_append_left _ earlier, issues⟩ ?_
        intro other listed
        rcases List.mem_append.mp listed with earlier | last
        · exact unmarkedBefore other earlier
        · exact List.mem_singleton.mp last ▸ unmarked
    | revoked marked =>
        obtain ⟨revoking, earlier, marks⟩ := marked
        exact .revoked ⟨revoking, List.mem_append_left _ earlier, marks⟩

theorem standing_of_run (executed : run (identityStep setup) (.init disk) events = some final)
    (fresh : FreshFingerprints (visits (identityStep setup) (.init disk) events))
    (fingerprint : String) :
    Standing fingerprint (visits (identityStep setup) (.init disk) events)
      final.registry[fingerprint]? := by
  induction events using List.reverseRecOn generalizing final with
  | nil =>
      cases executed
      have none : (Identity.init disk).registry[fingerprint]? = none := by simp [Identity.init]
      rw [none]
      exact .unknown (by simp [visits]) (by simp [visits])
  | append_singleton events event inductionHypothesis =>
      rw [run_concat] at executed
      obtain ⟨middle, reached, stepped⟩ := Option.bind_eq_some_iff.mp executed
      rw [visits_concat reached stepped] at fresh ⊢
      have earlier := inductionHypothesis reached fun visit listed =>
        fresh visit (List.mem_append_left _ listed)
      exact earlier.concat rfl rfl
        (fresh ⟨middle, event, final⟩ (List.mem_append_right _ (List.mem_singleton_self _)))
        (stepped_of_identityStep stepped)

/-- In every run a connection is admitted exactly if its certificate was
enrolled and no revoke has marked it, and it counts as the client of that
enrollment; it is denied exactly if a revoke has marked it. -/
theorem admitted_iff_enrolled
    (executed : run (identityStep setup) (.init disk) events = some final)
    (fresh : FreshFingerprints (visits (identityStep setup) (.init disk) events))
    (cert : Bytes) (chain : List Bytes) :
    (authenticate (some final.registry) (peerFingerprint setup.blake3 (some (cert :: chain))) =
        .ok () ↔
      (∃ visit ∈ visits (identityStep setup) (.init disk) events, ∃ name,
        IssuesUnder name (toHex (setup.blake3.hash cert)) visit ∧
        ownerOf (some final.registry) (peerFingerprint setup.blake3 (some (cert :: chain))) =
          some name) ∧
      ∀ visit ∈ visits (identityStep setup) (.init disk) events, ∀ name,
        ¬ Marks name (toHex (setup.blake3.hash cert)) visit) ∧
    (authenticate (some final.registry) (peerFingerprint setup.blake3 (some (cert :: chain))) =
        .error .permissionDenied ↔
      ∃ visit ∈ visits (identityStep setup) (.init disk) events, ∃ name,
        Marks name (toHex (setup.blake3.hash cert)) visit) := by
  have presented : peerFingerprint setup.blake3 (some (cert :: chain)) =
      some (toHex (setup.blake3.hash cert)) := rfl
  have standing := standing_of_run executed fresh (toHex (setup.blake3.hash cert))
  simp only [presented, authenticate, clientStatus, ownerOf, clientName]
  generalize final.registry[toHex (setup.blake3.hash cert)]? = record at standing ⊢
  cases standing with
  | unknown unissued unmarked =>
      refine ⟨⟨by simp, ?_⟩, ⟨by simp, ?_⟩⟩
      · rintro ⟨⟨visit, listed, name, issues, -⟩, -⟩
        exact absurd issues (unissued visit listed name)
      · rintro ⟨visit, listed, name, marks⟩
        exact absurd marks (unmarked visit listed name)
  | @enrolled name issued unmarked =>
      obtain ⟨visit, listed, issues⟩ := issued
      refine ⟨⟨fun _ => ⟨⟨visit, listed, name, issues, by simp⟩, unmarked⟩, by simp⟩,
        ⟨by simp, ?_⟩⟩
      rintro ⟨marking, marked, given, marks⟩
      exact absurd marks (unmarked marking marked given)
  | revoked marked =>
      refine ⟨⟨by simp, ?_⟩, ⟨fun _ => marked, by simp⟩⟩
      rintro ⟨-, unmarked⟩
      obtain ⟨visit, listed, name, marks⟩ := marked
      exact absurd marks (unmarked visit listed name)

end Standing

section Sample

/-- The record of an issued certificate is new, as a check. -/
def issuesFresh (visit : IdentityVisit) : Bool :=
  match visit.event with
  | .issue _ fingerprint => !visit.before.registry.contains fingerprint
  | _ => true

/-- A client enrolls with the certificate `[1]`. -/
def enrollment : List IdentityEvent :=
  [.mint sampleToken, .enroll 0 sampleToken sampleCsr, .consume 0, .scan 0 [],
    .issue 0 (toHex (sampleSetup.blake3.hash [1])), .restart]

theorem enrolled_client_is_admitted :
    ∃ final, run (identityStep sampleSetup) (.init .empty) enrollment = some final ∧
      (∃ visit ∈ visits (identityStep sampleSetup) (.init .empty) enrollment, ∃ name,
        IssuesUnder name (toHex (sampleSetup.blake3.hash [1])) visit ∧
        ownerOf (some final.registry) (peerFingerprint sampleSetup.blake3 (some [[1]])) =
          some name) ∧
      ∀ visit ∈ visits (identityStep sampleSetup) (.init .empty) enrollment, ∀ name,
        ¬ Marks name (toHex (sampleSetup.blake3.hash [1])) visit := by
  obtain ⟨final, executed, admitted⟩ : ∃ final,
      run (identityStep sampleSetup) (.init .empty) enrollment = some final ∧
        authenticate (some final.registry) (peerFingerprint sampleSetup.blake3 (some [[1]])) =
          .ok () :=
    exists_final_of_any (by decide +kernel)
  have fresh : FreshFingerprints
      (visits (identityStep sampleSetup) (.init .empty) enrollment) := by
    have checked : ∀ visit ∈ visits (identityStep sampleSetup) (.init .empty) enrollment,
        issuesFresh visit = true :=
      List.all_eq_true.mp (by decide +kernel)
    intro visit listed request fingerprint issues
    have new := checked visit listed
    simp only [issuesFresh, issues, Bool.not_eq_true'] at new
    rw [← ExtTreeMap.contains_iff_mem, new]
    nofun
  exact ⟨final, executed, (admitted_iff_enrolled executed fresh [1] []).1.mp admitted⟩

end Sample

end Busyncr.Daemon
