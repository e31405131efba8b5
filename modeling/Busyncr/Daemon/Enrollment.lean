import Busyncr.Core.Manifest
import Busyncr.Daemon.Service
import Busyncr.Lib.Transition

/-!
Enrollment, revocation and the requests that follow them, on one identity
directory.

An `Enroll` request spends its token, checks its CSR against the registry and
writes the record of the certificate it issues, in steps of its own; a revoke
scans the registry and then writes one record after another.  Any number of
such calls run beside each other, in the daemon or in other processes.
-/

namespace Busyncr.Daemon

open Std Store Transition

/-- A value of a distinguished name, by how it is encoded. -/
inductive DnValue where
  | utf8String (text : String)
  | printableString (text : String)
  /-- Any other encoding. -/
  | other
deriving DecidableEq

/-- The certificate library: the Common Name, if any, of a CSR that parses
and carries its own signature. -/
abbrev ReadCsr := String → Option (Option DnValue)

def maxNameLen : Nat := 64

/-- `char::is_control`. -/
def isControl (char : Char) : Bool :=
  char.toNat < 0x20 || (0x7f ≤ char.toNat && char.toNat < 0xa0)

/-- The enrollment name of a Common Name. -/
def commonName (value : Option DnValue) : Option String :=
  let checked (name : String) : Option String :=
    if name ≠ "" ∧ (utf8Bytes name).length ≤ maxNameLen ∧ name.toList.all (!isControl ·) then
      some name
    else none
  match value with
  | some (.utf8String name) => checked name
  | some (.printableString name) => checked name
  | some .other => none
  | none => none

inductive IdentityError where
  | io
  | cert
  | csrRejected
  | badName
  | nameTaken (name : String)
deriving DecidableEq

def statusFromIdentity : IdentityError → Status
  | .csrRejected => .invalidArgument
  | .badName => .invalidArgument
  | .nameTaken _ => .alreadyExists
  | .io => .internal
  | .cert => .internal

/-- The first part of `enroll_client`: the name to enroll under. -/
def vetCsr (readCsr : ReadCsr) (registry : Registry) (csrPem : String) :
    Except IdentityError String :=
  match readCsr csrPem with
  | none => .error .csrRejected
  | some value =>
      match commonName value with
      | none => .error .badName
      | some name => if activeClientNamed registry name then .error (.nameTaken name) else .ok name

/-- The certificates a revoke has to mark, in the order the registry is
listed in. -/
def activeUnder (registry : Registry) (name : String) (order : List String) : List String :=
  order.filter fun fingerprint => registry[fingerprint]? = some ⟨name, false⟩

/-- A request other than `Enroll`. -/
inductive Rpc where
  | listSnapshots
  | hasChunks (chunkIds : List Bytes)
  | uploadChunks (blobs : List ChunkBlob)
  | putManifest (request : PutManifestRequest)
  | getManifest (snapshotId : Bytes)
  | getChunks (chunkIds : List Bytes)
deriving DecidableEq

inductive Reply where
  | snapshotIds (ids : List Bytes)
  | missingChunkIds (ids : List Bytes)
  | uploaded (counted : UploadChunksResponse)
  | manifestStored
  | manifest (blob : Bytes)
  | chunks (stream : List (Except Status ChunkBlob))

/-- How the daemon is configured and what it computes with. -/
structure Setup where
  blake3 : Blake3
  readCsr : ReadCsr
  autoPrune : Bool

/-- The handler of an admitted request. -/
def handle (setup : Setup) (owner : Option String) (nowMs : Int64) (disk : Disk) :
    Rpc → Except Status Reply × Disk
  | .listSnapshots => (.ok (.snapshotIds ((listSnapshots disk.tables).map Ulid.toBytes)), disk)
  | .hasChunks chunkIds => ((hasChunks disk.tables chunkIds).map .missingChunkIds, disk)
  | .uploadChunks blobs =>
      match uploadChunks setup.blake3 disk ⟨0, 0⟩ blobs with
      | (counted, next) => (counted.map .uploaded, next)
  | .putManifest request =>
      match putManifest disk.tables owner setup.autoPrune nowMs request with
      | .error status => (.error status, disk)
      | .ok tables => (.ok .manifestStored, { disk with tables := tables })
  | .getManifest snapshotId => ((getManifest disk.tables snapshotId).map .manifest, disk)
  | .getChunks chunkIds => ((getChunks setup.blake3 disk chunkIds).map .chunks, disk)

/-- A request with the certificate it came with: every handler authenticates
first. -/
def serve (setup : Setup) (auth : Option Registry) (fingerprint : Option String)
    (nowMs : Int64) (disk : Disk) (rpc : Rpc) : Except Status Reply × Disk :=
  match authenticate auth fingerprint with
  | .error status => (.error status, disk)
  | .ok () => handle setup (ownerOf auth fingerprint) nowMs disk rpc

/-- How far an `Enroll` request or a revoke has come. -/
inductive Call where
  | presented (token csrPem : String)
  /-- The token is spent. -/
  | admitted (token csrPem : String)
  /-- The CSR is accepted and the scan found its name free. -/
  | cleared (token name : String)
  | issued (token name fingerprint : String)
  | refused (status : Status)
  | revoking (name : String)
  /-- The certificates still to be marked, and how many have been. -/
  | marking (name : String) (found : List String) (marked : Nat)
  | revoked (name : String) (marked : Nat)
  /-- Ended by a failure of the file system or with its process. -/
  | dropped
deriving DecidableEq

/-- A call that has not returned. -/
def Call.running : Call → Bool
  | presented _ _ => true
  | admitted _ _ => true
  | cleared _ _ => true
  | revoking _ => true
  | marking _ _ _ => true
  | issued _ _ _ => false
  | refused _ => false
  | revoked _ _ => false
  | dropped => false

/-- A call that a restart of the daemon ends: revokes are processes of their
own. -/
def Call.ofDaemon : Call → Bool
  | presented _ _ => true
  | admitted _ _ => true
  | cleared _ _ => true
  | _ => false

/-- The identity directory, the calls on it and the store beside it. -/
structure Identity where
  /-- The files under `tokens/`, named by the hash of the token. -/
  tokens : Vector UInt8 32 → Bool
  registry : Registry
  calls : Nat → Option Call
  disk : Disk

/-- A fresh identity directory. -/
def Identity.init (disk : Disk) : Identity := ⟨fun _ => false, ∅, fun _ => none, disk⟩

def Identity.setCall (identity : Identity) (request : Nat) (call : Call) : Identity :=
  { identity with calls := Function.update identity.calls request (some call) }

def tokenHash (blake3 : Blake3) (token : String) : Vector UInt8 32 :=
  blake3.hash (utf8Bytes token)

inductive IdentityEvent where
  /-- `mint_token` puts its file in place. -/
  | mint (token : String)
  | enroll (request : Nat) (token csrPem : String)
  /-- `consume_token`. -/
  | consume (request : Nat)
  /-- The scan of the registry in the order it is listed in, with what a call
  decides on it. -/
  | scan (request : Nat) (order : List String)
  /-- Sign the certificate and write its record. -/
  | issue (request : Nat) (fingerprint : String)
  | revoke (request : Nat) (name : String)
  /-- Write the next record of a revoke, or return. -/
  | mark (request : Nat)
  | fail (request : Nat)
  | restart
  | rpc (fingerprint : Option String) (rpc : Rpc) (nowMs : Int64)
deriving DecidableEq

section Step

variable (setup : Setup) (identity : Identity)

def begin (request : Nat) (call : Call) : Option Identity :=
  match identity.calls request with
  | none => some (identity.setCall request call)
  | some _ => none

def consumeToken (request : Nat) : Option Identity :=
  match identity.calls request with
  | some (.presented token csrPem) =>
      if identity.tokens (tokenHash setup.blake3 token) then
        some { identity.setCall request (.admitted token csrPem) with
          tokens := Function.update identity.tokens (tokenHash setup.blake3 token) false }
      else some (identity.setCall request (.refused .permissionDenied))
  | _ => none

def scanRegistry (request : Nat) (order : List String) : Option Identity :=
  if order.isPerm identity.registry.keys then
    match identity.calls request with
    | some (.admitted token csrPem) =>
        match vetCsr setup.readCsr identity.registry csrPem with
        | .error error => some (identity.setCall request (.refused (statusFromIdentity error)))
        | .ok name => some (identity.setCall request (.cleared token name))
    | some (.revoking name) =>
        some (identity.setCall request
          (.marking name (activeUnder identity.registry name order) 0))
    | _ => none
  else none

def issueCertificate (request : Nat) (fingerprint : String) : Option Identity :=
  match identity.calls request with
  | some (.cleared token name) =>
      some { identity.setCall request (.issued token name fingerprint) with
        registry := identity.registry.insert fingerprint ⟨name, false⟩ }
  | _ => none

def markNext (request : Nat) : Option Identity :=
  match identity.calls request with
  | some (.marking name (fingerprint :: rest) marked) =>
      some { identity.setCall request (.marking name rest (marked + 1)) with
        registry := identity.registry.insert fingerprint ⟨name, true⟩ }
  | some (.marking name [] marked) => some (identity.setCall request (.revoked name marked))
  | _ => none

def dropCall (request : Nat) : Option Identity :=
  match identity.calls request with
  | some call => if call.running then some (identity.setCall request .dropped) else none
  | none => none

def identityStep : IdentityEvent → Option Identity
  | .mint token =>
      some { identity with
        tokens := Function.update identity.tokens (tokenHash setup.blake3 token) true }
  | .enroll request token csrPem => begin identity request (.presented token csrPem)
  | .consume request => consumeToken setup identity request
  | .scan request order => scanRegistry setup identity request order
  | .issue request fingerprint => issueCertificate identity request fingerprint
  | .revoke request name => begin identity request (.revoking name)
  | .mark request => markNext identity request
  | .fail request => dropCall identity request
  | .restart =>
      some { identity with
        calls := fun request => (identity.calls request).map fun call =>
          if call.ofDaemon then .dropped else call }
  | .rpc fingerprint rpc nowMs =>
      some { identity with
        disk := (serve setup (some identity.registry) fingerprint nowMs identity.disk rpc).2 }

/-- What each event can do. -/
inductive Stepped : IdentityEvent → Identity → Prop where
  | minted (token : String) :
      Stepped (.mint token) { identity with
        tokens := Function.update identity.tokens (tokenHash setup.blake3 token) true }
  | enrolling (request : Nat) (token csrPem : String) (new : identity.calls request = none) :
      Stepped (.enroll request token csrPem)
        (identity.setCall request (.presented token csrPem))
  | spent (request : Nat) (token csrPem : String)
      (presented : identity.calls request = some (.presented token csrPem))
      (outstanding : identity.tokens (tokenHash setup.blake3 token) = true) :
      Stepped (.consume request) { identity.setCall request (.admitted token csrPem) with
        tokens := Function.update identity.tokens (tokenHash setup.blake3 token) false }
  | denied (request : Nat) (token csrPem : String)
      (presented : identity.calls request = some (.presented token csrPem))
      (absent : identity.tokens (tokenHash setup.blake3 token) = false) :
      Stepped (.consume request) (identity.setCall request (.refused .permissionDenied))
  | rejected (request : Nat) (order : List String) (token csrPem : String) (error : IdentityError)
      (admitted : identity.calls request = some (.admitted token csrPem)) :
      Stepped (.scan request order)
        (identity.setCall request (.refused (statusFromIdentity error)))
  | cleared (request : Nat) (order : List String) (token csrPem name : String)
      (admitted : identity.calls request = some (.admitted token csrPem))
      (vetted : vetCsr setup.readCsr identity.registry csrPem = .ok name) :
      Stepped (.scan request order) (identity.setCall request (.cleared token name))
  | surveyed (request : Nat) (order : List String) (name : String)
      (listed : order.Perm identity.registry.keys)
      (revoking : identity.calls request = some (.revoking name)) :
      Stepped (.scan request order)
        (identity.setCall request (.marking name (activeUnder identity.registry name order) 0))
  | issued (request : Nat) (token name fingerprint : String)
      (cleared : identity.calls request = some (.cleared token name)) :
      Stepped (.issue request fingerprint)
        { identity.setCall request (.issued token name fingerprint) with
          registry := identity.registry.insert fingerprint ⟨name, false⟩ }
  | revoking (request : Nat) (name : String) (new : identity.calls request = none) :
      Stepped (.revoke request name) (identity.setCall request (.revoking name))
  | marked (request : Nat) (name fingerprint : String) (rest : List String) (count : Nat)
      (marking : identity.calls request = some (.marking name (fingerprint :: rest) count)) :
      Stepped (.mark request) { identity.setCall request (.marking name rest (count + 1)) with
        registry := identity.registry.insert fingerprint ⟨name, true⟩ }
  | returned (request : Nat) (name : String) (count : Nat)
      (marking : identity.calls request = some (.marking name [] count)) :
      Stepped (.mark request) (identity.setCall request (.revoked name count))
  | dropped (request : Nat) (call : Call) (found : identity.calls request = some call)
      (running : call.running = true) :
      Stepped (.fail request) (identity.setCall request .dropped)
  | restarted :
      Stepped .restart { identity with
        calls := fun request => (identity.calls request).map fun call =>
          if call.ofDaemon then .dropped else call }
  | served (fingerprint : Option String) (rpc : Rpc) (nowMs : Int64) :
      Stepped (.rpc fingerprint rpc nowMs) { identity with
        disk := (serve setup (some identity.registry) fingerprint nowMs identity.disk rpc).2 }

end Step

section Inversion

variable {setup : Setup} {identity next : Identity}

theorem begin_eq_some {request : Nat} {call : Call}
    (stepped : begin identity request call = some next) :
    identity.calls request = none ∧ next = identity.setCall request call := by
  unfold begin at stepped
  split at stepped
  next new => exact ⟨new, (Option.some.inj stepped).symm⟩
  next => cases stepped

theorem stepped_of_consumeToken {request : Nat}
    (stepped : consumeToken setup identity request = some next) :
    Stepped setup identity (.consume request) next := by
  unfold consumeToken at stepped
  split at stepped
  next token csrPem presented =>
    split at stepped
    next outstanding =>
      cases stepped
      exact .spent request token csrPem presented outstanding
    next absent =>
      cases stepped
      exact .denied request token csrPem presented (by simpa using absent)
  next => cases stepped

theorem stepped_of_scanRegistry {request : Nat} {order : List String}
    (stepped : scanRegistry setup identity request order = some next) :
    Stepped setup identity (.scan request order) next := by
  unfold scanRegistry at stepped
  split at stepped
  next listed =>
    split at stepped
    next token csrPem admitted =>
      split at stepped
      next error _ =>
        cases stepped
        exact .rejected request order token csrPem error admitted
      next name vetted =>
        cases stepped
        exact .cleared request order token csrPem name admitted vetted
    next name revoking =>
      cases stepped
      exact .surveyed request order name (List.isPerm_iff.mp listed) revoking
    next => cases stepped
  next => cases stepped

theorem stepped_of_issueCertificate {request : Nat} {fingerprint : String}
    (stepped : issueCertificate identity request fingerprint = some next) :
    Stepped setup identity (.issue request fingerprint) next := by
  unfold issueCertificate at stepped
  split at stepped
  next token name cleared =>
    cases stepped
    exact .issued request token name fingerprint cleared
  next => cases stepped

theorem stepped_of_markNext {request : Nat}
    (stepped : markNext identity request = some next) :
    Stepped setup identity (.mark request) next := by
  unfold markNext at stepped
  split at stepped
  next name fingerprint rest count marking =>
    cases stepped
    exact .marked request name fingerprint rest count marking
  next name count marking =>
    cases stepped
    exact .returned request name count marking
  next => cases stepped

theorem stepped_of_dropCall {request : Nat}
    (stepped : dropCall identity request = some next) :
    Stepped setup identity (.fail request) next := by
  unfold dropCall at stepped
  split at stepped
  next call found =>
    split at stepped
    next running =>
      cases stepped
      exact .dropped request call found running
    next => cases stepped
  next => cases stepped

theorem stepped_of_identityStep {event : IdentityEvent}
    (stepped : identityStep setup identity event = some next) :
    Stepped setup identity event next := by
  cases event with
  | mint token =>
      cases stepped
      exact .minted token
  | enroll request token csrPem =>
      obtain ⟨new, rfl⟩ := begin_eq_some stepped
      exact .enrolling request token csrPem new
  | consume request => exact stepped_of_consumeToken stepped
  | scan request order => exact stepped_of_scanRegistry stepped
  | issue request fingerprint => exact stepped_of_issueCertificate stepped
  | revoke request name =>
      obtain ⟨new, rfl⟩ := begin_eq_some stepped
      exact .revoking request name new
  | mark request => exact stepped_of_markNext stepped
  | fail request => exact stepped_of_dropCall stepped
  | restart =>
      cases stepped
      exact .restarted
  | rpc fingerprint rpc nowMs =>
      cases stepped
      exact .served fingerprint rpc nowMs

end Inversion

section Effects

variable {setup : Setup} {identity next : Identity} {event : IdentityEvent}

@[simp]
theorem setCall_tokens (request : Nat) (call : Call) :
    (identity.setCall request call).tokens = identity.tokens := rfl

@[simp]
theorem setCall_registry (request : Nat) (call : Call) :
    (identity.setCall request call).registry = identity.registry := rfl

@[simp]
theorem setCall_calls (request : Nat) (call : Call) (other : Nat) :
    (identity.setCall request call).calls other =
      if other = request then some call else identity.calls other :=
  Function.update_apply _ _ _ _

/-- Only a mint or a successful `consume_token` changes the tokens. -/
theorem tokens_step (stepped : Stepped setup identity event next) :
    next.tokens = identity.tokens ∨
    (∃ token, event = .mint token ∧ next.tokens =
      Function.update identity.tokens (tokenHash setup.blake3 token) true) ∨
    ∃ request token csrPem, event = .consume request ∧
      identity.calls request = some (.presented token csrPem) ∧
      identity.tokens (tokenHash setup.blake3 token) = true ∧ next.tokens =
      Function.update identity.tokens (tokenHash setup.blake3 token) false := by
  cases stepped with
  | minted token => exact .inr (.inl ⟨token, rfl, rfl⟩)
  | spent request token csrPem presented outstanding =>
      exact .inr (.inr ⟨request, token, csrPem, rfl, presented, outstanding, rfl⟩)
  | _ => exact .inl rfl

/-- Only an issue or a mark changes the registry, by one record. -/
theorem registry_step (stepped : Stepped setup identity event next) :
    next.registry = identity.registry ∨
    (∃ request token name fingerprint, event = .issue request fingerprint ∧
      identity.calls request = some (.cleared token name) ∧
      next.registry = identity.registry.insert fingerprint ⟨name, false⟩) ∨
    ∃ request name fingerprint rest count, event = .mark request ∧
      identity.calls request = some (.marking name (fingerprint :: rest) count) ∧
      next.registry = identity.registry.insert fingerprint ⟨name, true⟩ := by
  cases stepped with
  | issued request token name fingerprint cleared =>
      exact .inr (.inl ⟨request, token, name, fingerprint, rfl, cleared, rfl⟩)
  | marked request name fingerprint rest count marking =>
      exact .inr (.inr ⟨request, name, fingerprint, rest, count, rfl, marking, rfl⟩)
  | _ => exact .inl rfl

/-- The transitions of a single call. -/
inductive CallStep (setup : Setup) (identity : Identity) (request : Nat) :
    IdentityEvent → Option Call → Option Call → Prop where
  | same (event : IdentityEvent) (call : Option Call) : CallStep setup identity request event call call
  | dropped (event : IdentityEvent) (call : Call) (running : call.running = true) :
      CallStep setup identity request event (some call) (some .dropped)
  | refused (event : IdentityEvent) (call : Call) (status : Status) (running : call.running = true) :
      CallStep setup identity request event (some call) (some (.refused status))
  | enrolling (token csrPem : String) :
      CallStep setup identity request (.enroll request token csrPem) none
        (some (.presented token csrPem))
  | spent (token csrPem : String)
      (outstanding : identity.tokens (tokenHash setup.blake3 token) = true) :
      CallStep setup identity request (.consume request) (some (.presented token csrPem))
        (some (.admitted token csrPem))
  | cleared (order : List String) (token csrPem name : String)
      (vetted : vetCsr setup.readCsr identity.registry csrPem = .ok name) :
      CallStep setup identity request (.scan request order) (some (.admitted token csrPem))
        (some (.cleared token name))
  | issued (token name fingerprint : String) :
      CallStep setup identity request (.issue request fingerprint) (some (.cleared token name))
        (some (.issued token name fingerprint))
  | revoking (name : String) :
      CallStep setup identity request (.revoke request name) none (some (.revoking name))
  | surveyed (order : List String) (name : String)
      (listed : order.Perm identity.registry.keys) :
      CallStep setup identity request (.scan request order) (some (.revoking name))
        (some (.marking name (activeUnder identity.registry name order) 0))
  | marked (name fingerprint : String) (rest : List String) (count : Nat) :
      CallStep setup identity request (.mark request)
        (some (.marking name (fingerprint :: rest) count))
        (some (.marking name rest (count + 1)))
  | returned (name : String) (count : Nat) :
      CallStep setup identity request (.mark request) (some (.marking name [] count))
        (some (.revoked name count))

theorem callStep_of_restart (request : Nat) (call : Option Call) :
    CallStep setup identity request .restart call
      (call.map fun call => if call.ofDaemon then .dropped else call) := by
  cases call with
  | none => exact .same _ _
  | some call =>
      cases call with
      | presented token csrPem => exact .dropped _ _ rfl
      | admitted token csrPem => exact .dropped _ _ rfl
      | cleared token name => exact .dropped _ _ rfl
      | _ => exact .same _ _

/-- A transition of one call is none of the others. -/
theorem callStep_setCall {other : Nat} {call : Call} {before : Option Call}
    (found : identity.calls other = before)
    (taken : CallStep setup identity other event before (some call)) (request : Nat) :
    CallStep setup identity request event (identity.calls request)
      ((identity.setCall other call).calls request) := by
  by_cases same : request = other
  · subst same
    simpa [found] using taken
  · simpa [same] using CallStep.same event (identity.calls request)

theorem callStep_of_stepped (stepped : Stepped setup identity event next) (request : Nat) :
    CallStep setup identity request event (identity.calls request) (next.calls request) := by
  cases stepped with
  | minted token => exact .same _ _
  | restarted => exact callStep_of_restart request _
  | served fingerprint rpc nowMs => exact .same _ _
  | enrolling other token csrPem new => exact callStep_setCall new (.enrolling token csrPem) request
  | spent other token csrPem presented outstanding =>
      exact callStep_setCall presented (.spent token csrPem outstanding) request
  | denied other token csrPem presented absent =>
      exact callStep_setCall presented (.refused _ _ _ rfl) request
  | rejected other order token csrPem error admitted =>
      exact callStep_setCall admitted (.refused _ _ _ rfl) request
  | cleared other order token csrPem name admitted vetted =>
      exact callStep_setCall admitted (.cleared order token csrPem name vetted) request
  | surveyed other order name listed revoking =>
      exact callStep_setCall revoking (.surveyed order name listed) request
  | issued other token name fingerprint cleared =>
      exact callStep_setCall cleared (.issued token name fingerprint) request
  | revoking other name new => exact callStep_setCall new (.revoking name) request
  | marked other name fingerprint rest count marking =>
      exact callStep_setCall marking (.marked name fingerprint rest count) request
  | returned other name count marking => exact callStep_setCall marking (.returned name count) request
  | dropped other call found running => exact callStep_setCall found (.dropped _ _ running) request

theorem mem_activeUnder {registry : Registry} {name fingerprint : String} {order : List String} :
    fingerprint ∈ activeUnder registry name order ↔
      fingerprint ∈ order ∧ registry[fingerprint]? = some ⟨name, false⟩ := by
  simp [activeUnder]

theorem registered_of_step (stepped : Stepped setup identity event next) {fingerprint : String}
    (registered : fingerprint ∈ identity.registry) : fingerprint ∈ next.registry := by
  rcases registry_step stepped with same | ⟨_, _, _, _, _, _, inserted⟩ |
    ⟨_, _, _, _, _, _, _, inserted⟩
  · rwa [same]
  · rw [inserted, ExtTreeMap.mem_insert]
    exact .inr registered
  · rw [inserted, ExtTreeMap.mem_insert]
    exact .inr registered

/-- A returned call stays as it is. -/
theorem call_of_returned (stepped : Stepped setup identity event next) {request : Nat}
    {call : Call} (found : identity.calls request = some call) (returned : call.running = false) :
    next.calls request = some call := by
  have taken := callStep_of_stepped stepped request
  rw [found] at taken
  generalize next.calls request = after at taken ⊢
  cases taken with
  | same => rfl
  | dropped _ _ running => exact absurd running (by simp [returned])
  | refused _ _ _ running => exact absurd running (by simp [returned])
  | _ => cases returned

theorem call_of_returned_run {events : List IdentityEvent} {request : Nat} {call : Call}
    (executed : run (identityStep setup) identity events = some next)
    (found : identity.calls request = some call) (returned : call.running = false) :
    next.calls request = some call := by
  refine run_invariant (fun identity => identity.calls request = some call) found ?_ executed
  intro visit visited holds
  exact call_of_returned (stepped_of_identityStep (visit_step visited)) holds returned

end Effects

section Sample

/-- A signed CSR with the Common Name `laptop`. -/
def sampleCsr : String :=
  "-----BEGIN CERTIFICATE REQUEST-----\n" ++
  "MIGQMEQCAQAwETEPMA0GA1UEAwwGbGFwdG9wMCowBQYDK2VwAyEAWC6ml6BDTMqB\n" ++
  "nDexjGbMv+2wAKW1Ut+dQkNVOWqmvxmgADAFBgMrZXADQQBkzvcUIsKG+iv01nhQ\n" ++
  "kckDcL0F1lItws6BB/ZHtTchxzP2zSw670mWJ4tO+P3F+00NO1/LwFjYSOXoYwk9\n" ++
  "xloG\n" ++
  "-----END CERTIFICATE REQUEST-----\n"

/-- The tokens a sample run mints. -/
def sampleToken : String := "0000000000000000000000000000000000000000000000000000000000000000"

def otherToken : String := "1111111111111111111111111111111111111111111111111111111111111111"

/-- The fingerprints of the certificates it issues. -/
def sampleFingerprint : String := "a1a1a1a1a1a1a1a1a1a1a1a1a1a1a1a1a1a1a1a1a1a1a1a1a1a1a1a1a1a1a1a1"

def otherFingerprint : String := "b2b2b2b2b2b2b2b2b2b2b2b2b2b2b2b2b2b2b2b2b2b2b2b2b2b2b2b2b2b2b2b2"

/-- BLAKE3 on the two tokens, and the library on the one CSR. -/
def sampleSetup : Setup where
  blake3 :=
    { hash := fun input =>
        if input.head? = some 0x31 then
          #v[0xdf, 0xb7, 0x18, 0xb0, 0x24, 0x47, 0xd1, 0x97, 0xbe, 0x2c, 0xb5, 0x80,
            0x37, 0x15, 0x1f, 0x05, 0xb5, 0xae, 0x1f, 0x77, 0xb7, 0x7d, 0x6d, 0xf3,
            0x98, 0x80, 0x63, 0x47, 0xad, 0xb3, 0xe2, 0x5b]
        else
          #v[0x8e, 0xb2, 0x55, 0xea, 0x24, 0x42, 0xbd, 0x52, 0x9c, 0x00, 0x41, 0x61,
            0x86, 0x9f, 0x00, 0x03, 0xbb, 0x57, 0x31, 0xd6, 0x5b, 0x7c, 0xed, 0xe9,
            0x82, 0x8d, 0xba, 0x5c, 0x92, 0xa0, 0x73, 0x43]
      keyedHash := fun _ _ => .replicate 32 0 }
  readCsr := fun _ => some (some (.utf8String "laptop"))
  autoPrune := false

end Sample

end Busyncr.Daemon
