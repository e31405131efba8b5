import Mathlib.Data.Set.Function
import Busyncr.Daemon.Enrollment

/-!
Enrollment tokens are spent once.

Every certificate is issued by a request that spent a token, every token is
spent after it was minted, and no token is spent a second time.
-/

namespace Busyncr.Daemon

open Std Store Transition

abbrev IdentityVisit := Visit Identity IdentityEvent

section Visits

variable (setup : Setup)

def Mints (token : String) (visit : IdentityVisit) : Prop := visit.event = .mint token

/-- The request finds its token outstanding and spends it. -/
def Spends (token : String) (request : Nat) (visit : IdentityVisit) : Prop :=
  visit.event = .consume request ∧
    (∃ csrPem, visit.before.calls request = some (.presented token csrPem)) ∧
    visit.before.tokens (tokenHash setup.blake3 token) = true

/-- The request, which presented the token, has its certificate's record
written. -/
def Issues (token : String) (request : Nat) (fingerprint : String) (visit : IdentityVisit) :
    Prop :=
  visit.event = .issue request fingerprint ∧
    ∃ name, visit.before.calls request = some (.cleared token name)

def mintedToken? : IdentityEvent → Option String
  | .mint token => some token
  | _ => none

/-- The token that an event brings up. -/
def namedToken? : IdentityEvent → Option String
  | .mint token => some token
  | .enroll _ token _ => some token
  | _ => none

/-- The call has spent the token. -/
inductive Holding (token : String) : Option Call → Prop where
  | admitted (csrPem : String) : Holding token (some (.admitted token csrPem))
  | cleared (name : String) : Holding token (some (.cleared token name))
  | issued (name fingerprint : String) : Holding token (some (.issued token name fingerprint))

end Visits

section Accounts

variable {setup : Setup} {identity next : Identity} {event : IdentityEvent}

theorem presented_of_step (stepped : Stepped setup identity event next) {request : Nat}
    {token csrPem : String} (presented : next.calls request = some (.presented token csrPem)) :
    identity.calls request = some (.presented token csrPem) ∨
      event = .enroll request token csrPem := by
  have taken := callStep_of_stepped stepped request
  rw [presented] at taken
  generalize identity.calls request = call at taken ⊢
  cases taken with
  | same => exact .inl rfl
  | enrolling => exact .inr rfl

theorem holding_of_step (stepped : Stepped setup identity event next) {request : Nat}
    {token : String} (holding : Holding token (next.calls request)) :
    Holding token (identity.calls request) ∨ Spends setup token request ⟨identity, event, next⟩ := by
  have taken := callStep_of_stepped stepped request
  generalize before : identity.calls request = call at taken ⊢
  generalize next.calls request = after at taken holding
  cases holding with
  | admitted csrPem =>
      cases taken with
      | same => exact .inl (.admitted csrPem)
      | spent _ _ outstanding => exact .inr ⟨rfl, ⟨csrPem, before⟩, outstanding⟩
  | cleared name =>
      cases taken with
      | same => exact .inl (.cleared name)
      | cleared order _ csrPem _ vetted => exact .inl (.admitted csrPem)
  | issued name fingerprint =>
      cases taken with
      | same => exact .inl (.issued name fingerprint)
      | issued => exact .inl (.cleared name)

variable (setup) in
/-- What a history of visits says of the tokens. -/
structure Accounted (known : Set String) (visited : List IdentityVisit) (identity : Identity) :
    Prop where
  presented : ∀ {request token csrPem},
    identity.calls request = some (.presented token csrPem) → token ∈ known
  minted : ∀ {token}, token ∈ known → identity.tokens (tokenHash setup.blake3 token) = true →
    ∃ visit ∈ visited, Mints token visit
  unspent : ∀ {token}, token ∈ known → identity.tokens (tokenHash setup.blake3 token) = true →
    ∀ visit ∈ visited, ∀ request, ¬ Spends setup token request visit
  spent : ∀ {request token}, Holding token (identity.calls request) →
    ∃ visit ∈ visited, Spends setup token request visit
  mintedFirst : ∀ visit ∈ visited, ∀ {token request}, Spends setup token request visit →
    ∃ other ∈ visited, Mints token other

variable {known : Set String} {visited : List IdentityVisit}

theorem accounted_init (disk : Disk) : Accounted setup known [] (.init disk) := by
  refine ⟨nofun, nofun, nofun, ?_, nofun⟩
  intro request token holding
  simp only [Identity.init] at holding
  cases holding

/-- A spent token is gone, and a visit spends only the token it removes. -/
theorem tokens_of_spends {token : String} {request : Nat}
    (stepped : Stepped setup identity event next)
    (spends : Spends setup token request ⟨identity, event, next⟩) :
    next.tokens = Function.update identity.tokens (tokenHash setup.blake3 token) false := by
  obtain ⟨rfl, ⟨csrPem, presented⟩, outstanding⟩ := spends
  simp only at presented outstanding
  cases stepped with
  | spent other same csr found _ =>
      rw [presented] at found
      cases found
      rfl
  | denied other same csr found absent =>
      rw [presented] at found
      cases found
      rw [outstanding] at absent
      cases absent

/-- A token that is outstanding was so before, or is minted right now. -/
theorem outstanding_of_step (injective : Set.InjOn (tokenHash setup.blake3) known)
    (stepped : Stepped setup identity event next)
    (named : ∀ token, namedToken? event = some token → token ∈ known) {token : String}
    (member : token ∈ known)
    (outstanding : next.tokens (tokenHash setup.blake3 token) = true) :
    identity.tokens (tokenHash setup.blake3 token) = true ∨ event = .mint token := by
  rcases tokens_step stepped with same | ⟨fresh, rfl, updated⟩ | ⟨_, used, _, _, _, _, updated⟩
  · exact .inl (same ▸ outstanding)
  · by_cases same : tokenHash setup.blake3 token = tokenHash setup.blake3 fresh
    · obtain rfl := injective member (named fresh rfl) same
      exact .inr rfl
    · rw [updated, Function.update_of_ne same] at outstanding
      exact .inl outstanding
  · by_cases same : tokenHash setup.blake3 token = tokenHash setup.blake3 used
    · rw [updated, same, Function.update_self] at outstanding
      cases outstanding
    · rw [updated, Function.update_of_ne same] at outstanding
      exact .inl outstanding

theorem Accounted.step (accounted : Accounted setup known visited identity)
    (injective : Set.InjOn (tokenHash setup.blake3) known)
    (stepped : Stepped setup identity event next)
    (named : ∀ token, namedToken? event = some token → token ∈ known)
    (distinct : ∀ token, event = .mint token → ∀ visit ∈ visited, ¬ Mints token visit) :
    Accounted setup known (visited ++ [⟨identity, event, next⟩]) next := by
  have older : ∀ {Holds : IdentityVisit → Prop}, (∃ visit ∈ visited, Holds visit) →
      ∃ visit ∈ visited ++ [⟨identity, event, next⟩], Holds visit := by
    rintro Holds ⟨visit, listed, holds⟩
    exact ⟨visit, List.mem_append_left _ listed, holds⟩
  have newest : (⟨identity, event, next⟩ : IdentityVisit) ∈
      visited ++ [⟨identity, event, next⟩] :=
    List.mem_append_right _ (List.mem_singleton_self _)
  have spentKnown : ∀ {token request}, Spends setup token request ⟨identity, event, next⟩ →
      token ∈ known := by
    rintro token request ⟨_, ⟨csrPem, presented⟩, _⟩
    exact accounted.presented presented
  refine ⟨?_, ?_, ?_, ?_, ?_⟩
  · intro request token csrPem presented
    rcases presented_of_step stepped presented with old | rfl
    · exact accounted.presented old
    · exact named token rfl
  · intro token member outstanding
    rcases outstanding_of_step injective stepped named member outstanding with old | rfl
    · exact older (accounted.minted member old)
    · exact ⟨_, newest, rfl⟩
  · intro token member outstanding visit listed request spends
    rcases List.mem_append.mp listed with old | new
    · rcases outstanding_of_step injective stepped named member outstanding with before | rfl
      · exact accounted.unspent member before visit old request spends
      · obtain ⟨mint, earlier, minted⟩ := accounted.mintedFirst visit old spends
        exact distinct token rfl mint earlier minted
    · obtain rfl := List.mem_singleton.mp new
      rw [tokens_of_spends stepped spends, Function.update_self] at outstanding
      cases outstanding
  · intro request token holding
    rcases holding_of_step stepped holding with old | spends
    · exact older (accounted.spent old)
    · exact ⟨_, newest, spends⟩
  · intro visit listed token request spends
    rcases List.mem_append.mp listed with old | new
    · exact older (accounted.mintedFirst visit old spends)
    · obtain rfl := List.mem_singleton.mp new
      exact older (accounted.minted (spentKnown spends) spends.2.2)

end Accounts

section Runs

variable {setup : Setup} {disk : Disk} {known : Set String} {events : List IdentityEvent}
  {final : Identity}

variable (known) in
/-- The tokens of a run are known, and no token is minted twice. -/
structure TokensOf (events : List IdentityEvent) : Prop where
  named : ∀ event ∈ events, ∀ token, namedToken? event = some token → token ∈ known
  distinct : (events.filterMap mintedToken?).Nodup

theorem TokensOf.of_append {more : List IdentityEvent}
    (tokens : TokensOf known (events ++ more)) : TokensOf known events := by
  refine ⟨fun event listed => tokens.named event (List.mem_append_left _ listed), ?_⟩
  have distinct := tokens.distinct
  rw [List.filterMap_append] at distinct
  exact distinct.of_append_left

theorem TokensOf.not_minted_again {event : IdentityEvent}
    (tokens : TokensOf known (events ++ [event])) {token : String} (minting : event = .mint token) :
    .mint token ∉ events := by
  intro listed
  have distinct := tokens.distinct
  rw [List.filterMap_append, minting] at distinct
  have earlier : token ∈ events.filterMap mintedToken? :=
    List.mem_filterMap.mpr ⟨_, listed, rfl⟩
  exact (List.nodup_append.mp distinct).2.2 token earlier token (by simp [mintedToken?]) rfl

theorem accounted_of_run (injective : Set.InjOn (tokenHash setup.blake3) known)
    (executed : run (identityStep setup) (.init disk) events = some final)
    (tokens : TokensOf known events) :
    Accounted setup known (visits (identityStep setup) (.init disk) events) final := by
  refine run_induction (fun events identity => TokensOf known events →
    Accounted setup known (visits (identityStep setup) (.init disk) events) identity)
    (fun _ => accounted_init disk) ?_ executed tokens
  intro events identity event next reached held stepped tokens
  rw [visits_concat reached stepped]
  refine (held tokens.of_append).step injective (stepped_of_identityStep stepped)
    (tokens.named event (by simp)) ?_
  intro token minting visit listed minted
  exact tokens.not_minted_again minting (minted ▸ visit_event_mem listed)

/-- The accounts at any place of a run. -/
theorem accounted_at (injective : Set.InjOn (tokenHash setup.blake3) known)
    (executed : run (identityStep setup) (.init disk) events = some final)
    (tokens : TokensOf known events) {before after : List IdentityVisit} {visit : IdentityVisit}
    (split : visits (identityStep setup) (.init disk) events = before ++ visit :: after) :
    Accounted setup known before visit.before := by
  obtain ⟨first, second, rfl, reached, rfl, _⟩ := split_of_visits executed split
  exact accounted_of_run injective reached tokens.of_append

theorem not_spends_again (injective : Set.InjOn (tokenHash setup.blake3) known)
    (executed : run (identityStep setup) (.init disk) events = some final)
    (tokens : TokensOf known events) {before between after : List IdentityVisit}
    {first second : IdentityVisit}
    (split : visits (identityStep setup) (.init disk) events =
      before ++ first :: (between ++ second :: after)) {token : String} {request other : Nat}
    (spends : Spends setup token request first) : ¬ Spends setup token other second := by
  intro again
  have regrouped : visits (identityStep setup) (.init disk) events =
      (before ++ first :: between) ++ second :: after := by
    simpa using split
  have accounted := accounted_at injective executed tokens regrouped
  obtain ⟨_, ⟨csrPem, presented⟩, outstanding⟩ := again
  exact accounted.unspent (accounted.presented presented) outstanding first (by simp) request spends

/-- A token is spent by one request only. -/
theorem same_request_of_spends (injective : Set.InjOn (tokenHash setup.blake3) known)
    (executed : run (identityStep setup) (.init disk) events = some final)
    (tokens : TokensOf known events) {first second : IdentityVisit}
    (firstListed : first ∈ visits (identityStep setup) (.init disk) events)
    (secondListed : second ∈ visits (identityStep setup) (.init disk) events) {token : String}
    {request other : Nat} (spends : Spends setup token request first)
    (again : Spends setup token other second) : request = other := by
  rcases visit_order firstListed secondListed with rfl | ⟨_, _, _, split⟩ | ⟨_, _, _, split⟩
  · exact IdentityEvent.consume.inj (spends.1.symm.trans again.1)
  · exact absurd again (not_spends_again injective executed tokens split spends)
  · exact absurd spends (not_spends_again injective executed tokens split again)

theorem call_of_issues {identity next : Identity} {event : IdentityEvent} {token : String}
    {request : Nat} {fingerprint : String} (stepped : Stepped setup identity event next)
    (issues : Issues token request fingerprint ⟨identity, event, next⟩) :
    ∃ name, next.calls request = some (.issued token name fingerprint) := by
  obtain ⟨rfl, name, cleared⟩ := issues
  simp only at cleared
  cases stepped with
  | issued _ other given _ found =>
      rw [cleared] at found
      cases found
      exact ⟨name, by simp⟩

/-- A request issues once. -/
theorem same_fingerprint_of_issues
    (executed : run (identityStep setup) (.init disk) events = some final)
    {first second : IdentityVisit}
    (firstListed : first ∈ visits (identityStep setup) (.init disk) events)
    (secondListed : second ∈ visits (identityStep setup) (.init disk) events)
    {token otherToken : String} {request : Nat} {fingerprint other : String}
    (issues : Issues token request fingerprint first)
    (again : Issues otherToken request other second) : fingerprint = other := by
  have once : ∀ {first second : IdentityVisit} {before between after} {token otherToken}
      {fingerprint other}, first ∈ visits (identityStep setup) (.init disk) events →
      visits (identityStep setup) (.init disk) events =
        before ++ first :: (between ++ second :: after) →
      Issues token request fingerprint first → ¬ Issues otherToken request other second := by
    rintro first second before between after token otherToken fingerprint other listed split issues
      ⟨_, name, cleared⟩
    obtain ⟨middle, between, _⟩ := run_between executed split
    obtain ⟨_, issued⟩ := call_of_issues (stepped_of_identityStep (visit_step listed)) issues
    have still := call_of_returned_run between issued rfl
    rw [still] at cleared
    cases cleared
  rcases visit_order firstListed secondListed with rfl | ⟨_, _, _, split⟩ | ⟨_, _, _, split⟩
  · exact (IdentityEvent.issue.inj (issues.1.symm.trans again.1)).2
  · exact absurd again (once firstListed split issues)
  · exact absurd issues (once secondListed split again)

/-- Every record of the registry was issued, also those a revoke is about to
mark. -/
theorem issues_of_registered
    (executed : run (identityStep setup) (.init disk) events = some final) :
    (∀ fingerprint ∈ final.registry,
      ∃ visit ∈ visits (identityStep setup) (.init disk) events, ∃ token request,
        Issues token request fingerprint visit) ∧
    ∀ {request name found count}, final.calls request = some (.marking name found count) →
      ∀ fingerprint ∈ found, fingerprint ∈ final.registry := by
  refine run_induction (fun events identity =>
    (∀ fingerprint ∈ identity.registry,
      ∃ visit ∈ visits (identityStep setup) (.init disk) events, ∃ token request,
        Issues token request fingerprint visit) ∧
    ∀ {request name found count}, identity.calls request = some (.marking name found count) →
      ∀ fingerprint ∈ found, fingerprint ∈ identity.registry) ?_ ?_ executed
  · refine ⟨fun fingerprint registered => ?_, nofun⟩
    simp [Identity.init] at registered
  · intro events identity event next reached held stepped
    have effect := stepped_of_identityStep stepped
    rw [visits_concat reached stepped]
    refine ⟨fun fingerprint registered => ?_, ?_⟩
    · have older : fingerprint ∈ identity.registry → ∃ visit ∈
          visits (identityStep setup) (.init disk) events ++ [⟨identity, event, next⟩],
          ∃ token request, Issues token request fingerprint visit := by
        intro before
        obtain ⟨visit, listed, issues⟩ := held.1 fingerprint before
        exact ⟨visit, List.mem_append_left _ listed, issues⟩
      rcases registry_step effect with same | ⟨request, token, name, fresh, rfl, cleared, inserted⟩ |
        ⟨request, name, marked, rest, count, rfl, marking, inserted⟩
      · exact older (same ▸ registered)
      · rw [inserted, ExtTreeMap.mem_insert] at registered
        rcases registered with isFresh | before
        · obtain rfl := LawfulEqOrd.eq_of_compare isFresh
          exact ⟨_, List.mem_append_right _ (List.mem_singleton_self _), token, request, rfl,
            name, cleared⟩
        · exact older before
      · rw [inserted, ExtTreeMap.mem_insert] at registered
        rcases registered with isMarked | before
        · obtain rfl := LawfulEqOrd.eq_of_compare isMarked
          exact older (held.2 marking _ (by simp))
        · exact older before
    · intro request name found count marking fingerprint listed
      have taken := callStep_of_stepped effect request
      rw [marking] at taken
      generalize call : identity.calls request = before at taken
      refine registered_of_step effect ?_
      cases taken with
      | same => exact held.2 call fingerprint listed
      | surveyed order _ perm =>
          exact ExtTreeMap.mem_iff_isSome_getElem?.mpr
            (by rw [(mem_activeUnder.mp listed).2]; rfl)
      | marked _ first => exact held.2 call fingerprint (List.mem_cons_of_mem _ listed)

theorem call_of_denied {identity next : Identity} {request : Nat} {token csrPem : String}
    (stepped : Stepped setup identity (.consume request) next)
    (presented : identity.calls request = some (.presented token csrPem))
    (absent : identity.tokens (tokenHash setup.blake3 token) = false) :
    next.calls request = some (.refused .permissionDenied) := by
  cases stepped with
  | spent _ other csr found outstanding =>
      rw [presented] at found
      cases found
      rw [absent] at outstanding
      cases outstanding
  | denied => simp

/-- A request whose token is not outstanding issues nothing. -/
theorem not_issues_of_denied
    (executed : run (identityStep setup) (.init disk) events = some final)
    {visit issue : IdentityVisit} {request : Nat} {token csrPem : String}
    (listed : visit ∈ visits (identityStep setup) (.init disk) events)
    (consumes : visit.event = .consume request)
    (presented : visit.before.calls request = some (.presented token csrPem))
    (absent : visit.before.tokens (tokenHash setup.blake3 token) = false)
    (issueListed : issue ∈ visits (identityStep setup) (.init disk) events)
    {issuedToken fingerprint : String} : ¬ Issues issuedToken request fingerprint issue := by
  intro issues
  rcases visit_order listed issueListed with rfl | ⟨_, _, _, split⟩ | ⟨_, _, _, split⟩
  · cases consumes.symm.trans issues.1
  · have stepped := stepped_of_identityStep (visit_step listed)
    rw [consumes] at stepped
    obtain ⟨middle, between, _⟩ := run_between executed split
    have still := call_of_returned_run between (call_of_denied stepped presented absent) rfl
    obtain ⟨_, name, cleared⟩ := issues
    rw [still] at cleared
    cases cleared
  · obtain ⟨middle, between, _⟩ := run_between executed split
    obtain ⟨name, issued⟩ :=
      call_of_issues (stepped_of_identityStep (visit_step issueListed)) issues
    have still := call_of_returned_run between issued rfl
    rw [still] at presented
    cases presented

variable (setup) in
/-- The record was issued to a request that spent the token, which had been
minted before. -/
def Matched (visited : List IdentityVisit) (fingerprint token : String) : Prop :=
  ∃ first mint between spend later issue rest request,
    visited = first ++ mint :: (between ++ spend :: (later ++ issue :: rest)) ∧
      Mints token mint ∧ Spends setup token request spend ∧
      Issues token request fingerprint issue

/-- An issue comes after the request spent its token, and that after the
token was minted. -/
theorem matched_of_issues (injective : Set.InjOn (tokenHash setup.blake3) known)
    (executed : run (identityStep setup) (.init disk) events = some final)
    (tokens : TokensOf known events) {issue : IdentityVisit}
    (listed : issue ∈ visits (identityStep setup) (.init disk) events) {token : String}
    {request : Nat} {fingerprint : String} (issues : Issues token request fingerprint issue) :
    Matched setup (visits (identityStep setup) (.init disk) events) fingerprint token ∧
      ∃ spend ∈ visits (identityStep setup) (.init disk) events,
        Spends setup token request spend := by
  obtain ⟨before, rest, split⟩ := List.append_of_mem listed
  obtain ⟨_, name, cleared⟩ := id issues
  obtain ⟨spend, spendListed, spends⟩ :=
    (accounted_at injective executed tokens split).spent (cleared ▸ Holding.cleared name)
  obtain ⟨earlier, later, rfl⟩ := List.append_of_mem spendListed
  have regrouped : visits (identityStep setup) (.init disk) events =
      earlier ++ spend :: (later ++ issue :: rest) := by
    simpa using split
  have accounted := accounted_at injective executed tokens regrouped
  obtain ⟨_, ⟨csrPem, presented⟩, outstanding⟩ := id spends
  obtain ⟨mint, mintListed, mints⟩ :=
    accounted.minted (accounted.presented presented) outstanding
  obtain ⟨first, between, rfl⟩ := List.append_of_mem mintListed
  exact ⟨⟨first, mint, between, spend, later, issue, rest, request, by simpa using regrouped,
    mints, spends, issues⟩, spend, by simp [regrouped], spends⟩

theorem same_fingerprint_of_token (injective : Set.InjOn (tokenHash setup.blake3) known)
    (executed : run (identityStep setup) (.init disk) events = some final)
    (tokens : TokensOf known events) {first second : IdentityVisit}
    (firstListed : first ∈ visits (identityStep setup) (.init disk) events)
    (secondListed : second ∈ visits (identityStep setup) (.init disk) events) {token : String}
    {request other : Nat} {fingerprint otherFingerprint : String}
    (issues : Issues token request fingerprint first)
    (again : Issues token other otherFingerprint second) : fingerprint = otherFingerprint := by
  obtain ⟨_, spend, spendListed, spends⟩ :=
    matched_of_issues injective executed tokens firstListed issues
  obtain ⟨_, otherSpend, otherListed, otherSpends⟩ :=
    matched_of_issues injective executed tokens secondListed again
  obtain rfl := same_request_of_spends injective executed tokens spendListed otherListed spends
    otherSpends
  exact same_fingerprint_of_issues executed firstListed secondListed issues again

/-- Enrollment tokens are one-time: the records of the registry go to
different tokens, each minted and then spent by the request the record was
issued to; no token is spent twice; and a request whose token was never
minted, or was spent before, issues nothing. -/
theorem tokens_are_one_time (injective : Set.InjOn (tokenHash setup.blake3) known)
    (executed : run (identityStep setup) (.init disk) events = some final)
    (tokens : TokensOf known events) :
    (∃ tokenOf : String → String,
      (∀ fingerprint ∈ final.registry,
        Matched setup (visits (identityStep setup) (.init disk) events) fingerprint
          (tokenOf fingerprint)) ∧
      ∀ fingerprint ∈ final.registry, ∀ other ∈ final.registry,
        tokenOf fingerprint = tokenOf other → fingerprint = other) ∧
    (∀ before first between second after token request other,
      visits (identityStep setup) (.init disk) events =
        before ++ first :: (between ++ second :: after) →
      Spends setup token request first → ¬ Spends setup token other second) ∧
    ∀ before visit after request token csrPem,
      visits (identityStep setup) (.init disk) events = before ++ visit :: after →
      visit.event = .consume request →
      visit.before.calls request = some (.presented token csrPem) →
      (∀ mint ∈ before, ¬ Mints token mint) ∨
        (∃ spend ∈ before, ∃ other, Spends setup token other spend) →
      ∀ issue ∈ visits (identityStep setup) (.init disk) events, ∀ issuedToken fingerprint,
        ¬ Issues issuedToken request fingerprint issue := by
  refine ⟨?_, ?_, ?_⟩
  · have issued := (issues_of_registered executed).1
    choose! visitOf listed tokenOf requestOf issues using issued
    refine ⟨tokenOf, fun fingerprint registered => ?_, ?_⟩
    · exact (matched_of_issues injective executed tokens (listed fingerprint registered)
        (issues fingerprint registered)).1
    · intro fingerprint registered other otherRegistered same
      have otherIssues := issues other otherRegistered
      rw [← same] at otherIssues
      exact same_fingerprint_of_token injective executed tokens (listed fingerprint registered)
        (listed other otherRegistered) (issues fingerprint registered) otherIssues
  · intro before first between second after token request other split spends
    exact not_spends_again injective executed tokens split spends
  · intro before visit after request token csrPem split consumes presented unfit issue issueListed
      issuedToken fingerprint
    have visitListed : visit ∈ visits (identityStep setup) (.init disk) events := by
      simp [split]
    refine not_issues_of_denied executed visitListed consumes presented ?_ issueListed
    have accounted := accounted_at injective executed tokens split
    have member := accounted.presented presented
    rw [← Bool.not_eq_true]
    intro outstanding
    rcases unfit with unminted | ⟨spend, spendListed, other, spends⟩
    · obtain ⟨mint, mintListed, mints⟩ := accounted.minted member outstanding
      exact unminted mint mintListed mints
    · exact accounted.unspent member outstanding spend spendListed other spends

end Runs

section Sample

/-- A token is minted, and two requests present it. -/
def tokenPresentedTwice : List IdentityEvent :=
  [.mint sampleToken, .enroll 0 sampleToken sampleCsr, .enroll 1 sampleToken sampleCsr, .consume 1,
    .consume 0, .restart, .enroll 2 otherToken sampleCsr, .mint otherToken, .consume 2, .scan 2 [],
    .issue 2 sampleFingerprint]

/-- The record of the second token's request is matched to that token. -/
theorem tokenPresentedTwice_is_matched :
    ∃ token, Matched sampleSetup
      (visits (identityStep sampleSetup) (.init .empty) tokenPresentedTwice) sampleFingerprint token := by
  have injective : Set.InjOn (tokenHash sampleSetup.blake3) {sampleToken, otherToken} := by
    have different : tokenHash sampleSetup.blake3 sampleToken ≠
        tokenHash sampleSetup.blake3 otherToken := by
      decide +kernel
    rintro first (rfl | rfl) second (rfl | rfl) same
    · rfl
    · exact absurd same different
    · exact absurd same.symm different
    · rfl
  have tokens : TokensOf {sampleToken, otherToken} tokenPresentedTwice := by
    refine ⟨?_, by decide +kernel⟩
    intro event listed token named
    have either : ∀ event ∈ tokenPresentedTwice,
        (namedToken? event).all (fun token => token = sampleToken ∨ token = otherToken) = true := by
      decide +kernel
    have checked := either event listed
    rw [named] at checked
    simpa using checked
  obtain ⟨final, executed, registered⟩ : ∃ final,
      run (identityStep sampleSetup) (.init .empty) tokenPresentedTwice = some final ∧
        sampleFingerprint ∈ final.registry :=
    exists_final_of_any (by decide +kernel)
  obtain ⟨tokenOf, matched, _⟩ := (tokens_are_one_time injective executed tokens).1
  exact ⟨tokenOf sampleFingerprint, matched sampleFingerprint registered⟩

end Sample

end Busyncr.Daemon
