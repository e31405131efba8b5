import Busyncr.Client.Certificates
import Busyncr.Lib.Interruption

/-!
The certificate authority of the daemon: `open_or_init` on the identity
directory, with its restarts and crashes.

The certificate of a pair is written before its key.  A key in the directory
therefore has its certificate beside it, and no open writes one file of a
pair beside a file of another.
-/

namespace Busyncr.Daemon.Bootstrap

open Directory Interruption Certificates

inductive IdentityName where
  | caCert
  | caKey
  | serverCert
  | serverKey
deriving DecidableEq

inductive IdentityFile where
  | live (name : IdentityName)
  /-- `.tmp-<name>`. -/
  | tmp (name : IdentityName)
deriving DecidableEq

/-- The temporary file of `write_atomic`. -/
def tmpOf : IdentityFile → IdentityFile
  | .live name => .tmp name
  | .tmp name => .tmp name

/-- A certificate and its private key, as PEM texts. -/
structure KeyedCert where
  certPem : String
  keyPem : String
deriving DecidableEq

/-- The certificate library, by the randomness its key pairs are generated
from. -/
structure CertLibrary (Seed : Type) where
  selfSigned : Seed → Option KeyedCert
  /-- A server certificate under the authority, if its PEM texts parse. -/
  signedBy : KeyedCert → Seed → Option KeyedCert

inductive OpenError where
  | io (path : IdentityName)
  | cert
  | csrRejected (reason : String)
deriving DecidableEq

/-- `read_string`. -/
def readString (dir : Dir IdentityFile) (name : IdentityName) : Except OpenError String :=
  match (dir (.live name)).bind fromUtf8? with
  | none => .error (.io name)
  | some text => .ok text

/-- `Path::is_file`. -/
def isFile (dir : Dir IdentityFile) (name : IdentityName) : Bool := (dir (.live name)).isSome

/-- The certificate first, then its key. -/
def pairWrites (cert key : IdentityName) (pair : KeyedCert) : Writes IdentityFile :=
  [(.live cert, utf8Bytes pair.certPem), (.live key, utf8Bytes pair.keyPem)]

/-- The pair of two files if both are there, and otherwise the generated one
with the files to write. -/
def loadOrGenerate (dir : Dir IdentityFile) (cert key : IdentityName)
    (generated : Option KeyedCert) : Except OpenError KeyedCert × Writes IdentityFile :=
  if isFile dir cert && isFile dir key then
    match readString dir cert with
    | .error error => (.error error, [])
    | .ok certPem =>
        match readString dir key with
        | .error error => (.error error, [])
        | .ok keyPem => (.ok ⟨certPem, keyPem⟩, [])
  else
    match generated with
    | none => (.error .cert, [])
    | some made => (.ok made, pairWrites cert key made)

/-- The opened identity. -/
structure DaemonIdentity where
  ca : KeyedCert
  caCertDer : Bytes
  server : KeyedCert
deriving DecidableEq

/-- The randomness an open draws. -/
structure Seeds (Seed : Type) where
  ca : Seed
  server : Seed

variable {Seed : Type} (library : CertLibrary Seed)

/-- What `open_or_init` returns, and the files it writes. -/
def openOrInit (dir : Dir IdentityFile) (seeds : Seeds Seed) :
    Except OpenError DaemonIdentity × Writes IdentityFile :=
  match loadOrGenerate dir .caCert .caKey (library.selfSigned seeds.ca) with
  | (.error error, writes) => (.error error, writes)
  | (.ok ca, writes) =>
      match pemToDer ca.certPem with
      | none => (.error (.csrRejected "stored CA certificate is not valid PEM"), writes)
      | some der =>
          match loadOrGenerate dir .serverCert .serverKey (library.signedBy ca seeds.server) with
          | (.error error, more) => (.error error, writes ++ more)
          | (.ok server, more) => (.ok ⟨ca, der, server⟩, writes ++ more)

/-- The files an open writes. -/
def plan (dir : Dir IdentityFile) (seeds : Seeds Seed) : Writes IdentityFile :=
  (openOrInit library dir seeds).2

/-- Both files of a pair are there. -/
def HasBoth (dir : Dir IdentityFile) (cert key : IdentityName) : Prop :=
  isFile dir cert = true ∧ isFile dir key = true

/-- The pair is stored in the two files. -/
structure Stores (dir : Dir IdentityFile) (cert key : IdentityName) (pair : KeyedCert) :
    Prop where
  certFile : dir (.live cert) = some (utf8Bytes pair.certPem)
  keyFile : dir (.live key) = some (utf8Bytes pair.keyPem)

/-- A key has its certificate beside it, and both are of one such pair. -/
structure Paired (dir : Dir IdentityFile) (cert key : IdentityName) (Made : KeyedCert → Prop) :
    Prop where
  ordered : isFile dir key = true → isFile dir cert = true
  made : HasBoth dir cert key → ∃ pair, Made pair ∧ Stores dir cert key pair

section Pairs

variable {library} {dir other : Dir IdentityFile} {cert key : IdentityName}
  {Made : KeyedCert → Prop} {pair : KeyedCert} {generated : Option KeyedCert}

theorem Stores.hasBoth (stores : Stores dir cert key pair) : HasBoth dir cert key := by
  simp [HasBoth, isFile, stores.certFile, stores.keyFile]

theorem readString_of_stored {name : IdentityName} {text : String}
    (stored : dir (.live name) = some (utf8Bytes text)) : readString dir name = .ok text := by
  simp [readString, stored]

theorem stored_of_readString {name : IdentityName} {text : String}
    (read : readString dir name = .ok text) : dir (.live name) = some (utf8Bytes text) := by
  unfold readString at read
  split at read
  next => cases read
  next decoded =>
    cases read
    obtain ⟨bytes, found, isText⟩ := Option.bind_eq_some_iff.mp decoded
    rw [found, utf8Bytes_of_fromUtf8? isText]

theorem loadOrGenerate_of_stores (stores : Stores dir cert key pair) :
    loadOrGenerate dir cert key generated = (.ok pair, []) := by
  obtain ⟨certThere, keyThere⟩ := stores.hasBoth
  simp [loadOrGenerate, certThere, keyThere, readString_of_stored stores.certFile,
    readString_of_stored stores.keyFile]

/-- A pair is refused, loaded or generated. -/
theorem loadOrGenerate_cases (dir : Dir IdentityFile) (cert key : IdentityName)
    (generated : Option KeyedCert) :
    (∃ error, loadOrGenerate dir cert key generated = (.error error, [])) ∨
    (∃ pair, Stores dir cert key pair ∧ loadOrGenerate dir cert key generated = (.ok pair, [])) ∨
    ∃ pair, ¬ HasBoth dir cert key ∧ generated = some pair ∧
      loadOrGenerate dir cert key generated = (.ok pair, pairWrites cert key pair) := by
  unfold loadOrGenerate
  split
  next =>
    split
    next error _ => exact .inl ⟨error, rfl⟩
    next certPem readCert =>
      split
      next error _ => exact .inl ⟨error, rfl⟩
      next keyPem readKey =>
        refine .inr (.inl ⟨⟨certPem, keyPem⟩, ⟨?_, ?_⟩, rfl⟩)
        · exact stored_of_readString readCert
        · exact stored_of_readString readKey
  next absent =>
    split
    next => exact .inl ⟨.cert, rfl⟩
    next pair =>
      refine .inr (.inr ⟨pair, ?_, rfl, rfl⟩)
      rwa [Bool.and_eq_true] at absent

theorem Stores.congr (stores : Stores dir cert key pair)
    (sameCert : other (.live cert) = dir (.live cert))
    (sameKey : other (.live key) = dir (.live key)) : Stores other cert key pair :=
  ⟨sameCert.trans stores.certFile, sameKey.trans stores.keyFile⟩

theorem Paired.congr (paired : Paired dir cert key Made)
    (sameCert : other (.live cert) = dir (.live cert))
    (sameKey : other (.live key) = dir (.live key)) : Paired other cert key Made := by
  constructor
  · intro there
    simp only [isFile, sameKey, sameCert] at there ⊢
    exact paired.ordered there
  · intro both
    simp only [HasBoth, isFile, sameKey, sameCert] at both
    obtain ⟨pair, made, stores⟩ := paired.made both
    exact ⟨pair, made, stores.congr sameCert sameKey⟩

theorem Paired.mono {Weaker : KeyedCert → Prop} (paired : Paired dir cert key Made)
    (implies : ∀ pair, Made pair → Weaker pair) : Paired dir cert key Weaker where
  ordered := paired.ordered
  made both := by
    obtain ⟨pair, made, stores⟩ := paired.made both
    exact ⟨pair, implies pair made, stores⟩

theorem overlay_pairWrites (dir : Dir IdentityFile) (pair : KeyedCert)
    (cert key name : IdentityName) (apart : name ≠ cert ∧ name ≠ key) (count : Nat) :
    overlay dir ((pairWrites cert key pair).take count) (.live name) = dir (.live name) := by
  apply overlay_of_not_mem
  rw [List.map_take]
  intro written
  have listed := List.mem_of_mem_take written
  simp [pairWrites, apart] at listed

theorem stores_overlay (distinct : cert ≠ key) :
    Stores (overlay dir (pairWrites cert key pair)) cert key pair := by
  have apart : (IdentityFile.live cert) ≠ .live key := by
    intro same
    injection same with same
    exact distinct same
  exact ⟨by simp [pairWrites, apart], by simp [pairWrites]⟩

/-- However many files of a pair are written, the files stay paired: a lone
key is not there to be completed. -/
theorem Paired.write (paired : Paired dir cert key Made) (distinct : cert ≠ key)
    (missing : ¬ HasBoth dir cert key) (made : Made pair) (count : Nat) :
    Paired (overlay dir ((pairWrites cert key pair).take count)) cert key Made := by
  have lone : isFile dir key = false := by
    by_contra there
    rw [Bool.not_eq_false] at there
    exact missing ⟨paired.ordered there, there⟩
  have apart : (IdentityFile.live key) ≠ .live cert := by
    intro same
    injection same with same
    exact distinct same.symm
  rcases count with _ | _ | count
  · exact paired
  · constructor
    · intro _
      simp [pairWrites, isFile]
    · rintro ⟨-, there⟩
      simp only [isFile] at lone
      simp [pairWrites, isFile, apart, lone] at there
  · have whole : (pairWrites cert key pair).take (count + 2) = pairWrites cert key pair := by
      simp [pairWrites]
    have stores : Stores (overlay dir (pairWrites cert key pair)) cert key pair :=
      stores_overlay distinct
    rw [whole]
    exact ⟨fun _ => stores.hasBoth.1, fun _ => ⟨pair, made, stores⟩⟩

end Pairs

/-- The temporary files. -/
def temporaries : Set IdentityFile := Set.range IdentityFile.tmp

theorem tmpOf_mem_temporaries (file : IdentityFile) : tmpOf file ∈ temporaries := by
  cases file with
  | live name => exact ⟨name, rfl⟩
  | tmp name => exact ⟨name, rfl⟩

@[simp]
theorem live_not_mem_temporaries (name : IdentityName) : IdentityFile.live name ∉ temporaries :=
  nofun

/-- A self-signed authority. -/
def IsAuthority (pair : KeyedCert) : Prop := ∃ seed, library.selfSigned seed = some pair

/-- A server certificate signed by the stored authority. -/
def IsServerOf (dir : Dir IdentityFile) (pair : KeyedCert) : Prop :=
  ∃ ca seed, Stores dir .caCert .caKey ca ∧ library.signedBy ca seed = some pair

/-- The authority is one pair, the server certificate is a pair signed by it,
and nothing of the server is there before the authority is complete. -/
structure Trusted (dir : Dir IdentityFile) : Prop where
  ca : Paired dir .caCert .caKey (IsAuthority library)
  server : Paired dir .serverCert .serverKey (IsServerOf library dir)
  above : isFile dir .serverCert = true → HasBoth dir .caCert .caKey

section Opening

variable {library} {dir other : Dir IdentityFile} {seeds : Seeds Seed} {ca server : KeyedCert}

theorem trusted_empty : Trusted library fun _ => none := by
  constructor
  · exact ⟨by simp [isFile], by simp [HasBoth, isFile]⟩
  · exact ⟨by simp [isFile], by simp [HasBoth, isFile]⟩
  · simp [isFile]

theorem Trusted.congr (trusted : Trusted library dir)
    (same : ∀ name, other (.live name) = dir (.live name)) : Trusted library other := by
  constructor
  · exact trusted.ca.congr (same _) (same _)
  · refine (trusted.server.congr (same _) (same _)).mono ?_
    rintro pair ⟨ca, seed, stores, signed⟩
    exact ⟨ca, seed, stores.congr (same _) (same _), signed⟩
  · have above := trusted.above
    simp only [HasBoth, isFile, same] at above ⊢
    exact above

/-- While the authority is written there is nothing of the server. -/
theorem Trusted.writeCa (trusted : Trusted library dir)
    (missing : ¬ HasBoth dir .caCert .caKey) {seed : Seed}
    (signed : library.selfSigned seed = some ca) (count : Nat) :
    Trusted library (overlay dir ((pairWrites .caCert .caKey ca).take count)) := by
  have serverCert := overlay_pairWrites dir ca .caCert .caKey .serverCert (by simp) count
  have serverKey := overlay_pairWrites dir ca .caCert .caKey .serverKey (by simp) count
  have none : isFile dir .serverCert = false := by
    by_contra there
    rw [Bool.not_eq_false] at there
    exact missing (trusted.above there)
  constructor
  · exact trusted.ca.write (by simp) missing ⟨seed, signed⟩ count
  · constructor
    · have ordered := trusted.server.ordered
      simp only [isFile, serverCert, serverKey] at ordered ⊢
      exact ordered
    · rintro ⟨there, -⟩
      simp only [isFile, serverCert] at there none
      rw [none] at there
      cases there
  · intro there
    simp only [isFile, serverCert] at there none
    rw [none] at there
    cases there

/-- The server certificate is written under a complete authority. -/
theorem Trusted.writeServer (trusted : Trusted library dir) (stores : Stores dir .caCert .caKey ca)
    (missing : ¬ HasBoth dir .serverCert .serverKey) {seed : Seed}
    (signed : library.signedBy ca seed = some server) (count : Nat) :
    Trusted library (overlay dir ((pairWrites .serverCert .serverKey server).take count)) := by
  have caCert := overlay_pairWrites dir server .serverCert .serverKey .caCert (by simp) count
  have caKey := overlay_pairWrites dir server .serverCert .serverKey .caKey (by simp) count
  have still := stores.congr caCert caKey
  constructor
  · exact trusted.ca.congr caCert caKey
  · refine (trusted.server.write (by simp) missing ⟨ca, seed, stores, signed⟩ count).mono ?_
    rintro pair ⟨signer, drawn, storesSigner, made⟩
    exact ⟨signer, drawn, storesSigner.congr caCert caKey, made⟩
  · intro _
    exact still.hasBoth

/-- An open writes nothing, a server pair under the stored authority, or a new
authority with or without its server pair. -/
theorem plan_cases (dir : Dir IdentityFile) (seeds : Seeds Seed) :
    plan library dir seeds = [] ∨
    (∃ ca server, Stores dir .caCert .caKey ca ∧ ¬ HasBoth dir .serverCert .serverKey ∧
      library.signedBy ca seeds.server = some server ∧
      plan library dir seeds = pairWrites .serverCert .serverKey server) ∨
    ∃ ca, ¬ HasBoth dir .caCert .caKey ∧ library.selfSigned seeds.ca = some ca ∧
      (plan library dir seeds = pairWrites .caCert .caKey ca ∨
        ∃ server, ¬ HasBoth dir .serverCert .serverKey ∧
          library.signedBy ca seeds.server = some server ∧
          plan library dir seeds = pairWrites .caCert .caKey ca ++
            pairWrites .serverCert .serverKey server) := by
  unfold plan openOrInit
  rcases loadOrGenerate_cases dir .caCert .caKey (library.selfSigned seeds.ca) with
    ⟨error, refused⟩ | ⟨ca, stores, loaded⟩ | ⟨ca, missing, signed, generated⟩
  · rw [refused]
    exact .inl rfl
  · rw [loaded]
    simp only
    split
    next => exact .inl rfl
    next der =>
      rcases loadOrGenerate_cases dir .serverCert .serverKey (library.signedBy ca seeds.server)
        with ⟨error, refused⟩ | ⟨server, _, loadedServer⟩ | ⟨server, missing, signed, generated⟩
      · rw [refused]
        exact .inl rfl
      · rw [loadedServer]
        exact .inl rfl
      · rw [generated]
        exact .inr (.inl ⟨ca, server, stores, missing, signed, rfl⟩)
  · rw [generated]
    refine .inr (.inr ⟨ca, missing, signed, ?_⟩)
    simp only
    split
    next => exact .inl rfl
    next der =>
      rcases loadOrGenerate_cases dir .serverCert .serverKey (library.signedBy ca seeds.server)
        with ⟨error, refused⟩ | ⟨server, _, loadedServer⟩ | ⟨server, absent, signedServer, made⟩
      · rw [refused]
        exact .inl (List.append_nil _)
      · rw [loadedServer]
        exact .inl (List.append_nil _)
      · rw [made]
        exact .inr ⟨server, absent, signedServer, rfl⟩

theorem sustained_trusted : Sustained temporaries (plan library) (Trusted library) where
  visible agrees trusted := trusted.congr fun name => agrees _ (live_not_mem_temporaries name)
  kept := by
    intro dir trusted seeds count
    rcases plan_cases dir seeds with nothing |
      ⟨ca, server, stores, missing, signed, writes⟩ | ⟨ca, missing, signed, writes⟩
    · rw [nothing, List.take_nil]
      exact trusted
    · rw [writes]
      exact trusted.writeServer stores missing signed count
    · rcases writes with writes | ⟨server, missingServer, signedServer, writes⟩
      · rw [writes]
        exact trusted.writeCa missing signed count
      · rw [writes, List.take_append, overlay_append]
        by_cases early : count ≤ 2
        · have nothing : count - (pairWrites .caCert .caKey ca).length = 0 := by
            simp [pairWrites, early]
          rw [nothing, List.take_zero]
          exact trusted.writeCa missing signed count
        · have whole : (pairWrites .caCert .caKey ca).take count =
              pairWrites .caCert .caKey ca := by
            apply List.take_of_length_le
            simp only [pairWrites, List.length_cons, List.length_nil]
            omega
          have written := trusted.writeCa missing signed count
          have serverCert := overlay_pairWrites dir ca .caCert .caKey .serverCert (by simp) count
          have serverKey := overlay_pairWrites dir ca .caCert .caKey .serverKey (by simp) count
          rw [whole] at written serverCert serverKey ⊢
          apply written.writeServer (stores_overlay (by simp)) ?_ signedServer
          simp only [HasBoth, isFile, serverCert, serverKey]
          exact missingServer

/-- Both pairs are stored. -/
def Settled (identity : DaemonIdentity) (dir : Dir IdentityFile) : Prop :=
  Stores dir .caCert .caKey identity.ca ∧ Stores dir .serverCert .serverKey identity.server

/-- A complete identity is opened as it is. -/
theorem openOrInit_of_settled {identity : DaemonIdentity} (settled : Settled identity dir)
    (decoded : pemToDer identity.ca.certPem = some identity.caCertDer) :
    openOrInit library dir seeds = (.ok identity, []) := by
  simp only [openOrInit, loadOrGenerate_of_stores settled.1, decoded,
    loadOrGenerate_of_stores settled.2, List.append_nil]

theorem sustained_settled {identity : DaemonIdentity}
    (decoded : pemToDer identity.ca.certPem = some identity.caCertDer) :
    Sustained temporaries (plan library) (Settled identity) where
  visible agrees settled :=
    ⟨settled.1.congr (agrees _ (live_not_mem_temporaries _))
        (agrees _ (live_not_mem_temporaries _)),
      settled.2.congr (agrees _ (live_not_mem_temporaries _))
        (agrees _ (live_not_mem_temporaries _))⟩
  kept := by
    intro dir settled seeds count
    rw [plan, openOrInit_of_settled settled decoded, List.take_nil]
    exact settled

/-- A pair that was loaded or generated is stored, and no other file is
written. -/
theorem stores_of_loadOrGenerate {cert key : IdentityName} {generated : Option KeyedCert}
    {pair : KeyedCert} {writes : Writes IdentityFile} (distinct : cert ≠ key)
    (loaded : loadOrGenerate dir cert key generated = (.ok pair, writes))
    {base : Dir IdentityFile} (sameCert : base (.live cert) = dir (.live cert))
    (sameKey : base (.live key) = dir (.live key)) :
    Stores (overlay base writes) cert key pair ∧
      ∀ name, name ≠ cert ∧ name ≠ key → overlay base writes (.live name) = base (.live name) := by
  rcases loadOrGenerate_cases dir cert key generated with
    ⟨error, refused⟩ | ⟨found, stores, answered⟩ | ⟨made, _, _, answered⟩
  · rw [refused] at loaded
    cases loaded
  · rw [answered] at loaded
    cases loaded
    exact ⟨stores.congr sameCert sameKey, fun _ _ => rfl⟩
  · rw [answered] at loaded
    cases loaded
    refine ⟨stores_overlay distinct, fun name apart => ?_⟩
    have kept := overlay_pairWrites base pair cert key name apart 2
    exact kept

/-- An open that succeeds leaves its identity in the directory. -/
theorem settled_of_openOrInit {identity : DaemonIdentity}
    (opened : (openOrInit library dir seeds).1 = .ok identity) :
    pemToDer identity.ca.certPem = some identity.caCertDer ∧
      Settled identity (overlay dir (plan library dir seeds)) := by
  unfold plan
  unfold openOrInit at opened ⊢
  split at opened
  next => cases opened
  next ca writes loadedCa =>
    split at opened
    next => cases opened
    next der decoded =>
      split at opened
      next => cases opened
      next server more loadedServer =>
        cases opened
        obtain ⟨storesCa, keptCa⟩ := stores_of_loadOrGenerate (by simp) loadedCa rfl rfl
        obtain ⟨storesServer, keptServer⟩ := stores_of_loadOrGenerate (by simp) loadedServer
          (keptCa .serverCert (by simp)) (keptCa .serverKey (by simp))
        simp only [decoded, overlay_append]
        refine ⟨trivial, ?_, storesServer⟩
        exact storesCa.congr (keptServer .caCert (by simp)) (keptServer .caKey (by simp))

/-- The certificates of an identity belong together. -/
structure WellSigned (library : CertLibrary Seed) (identity : DaemonIdentity) : Prop where
  authority : IsAuthority library identity.ca
  decoded : pemToDer identity.ca.certPem = some identity.caCertDer
  server : ∃ seed, library.signedBy identity.ca seed = some identity.server

theorem Stores.unique {cert key : IdentityName} {pair found : KeyedCert}
    (stores : Stores dir cert key pair) (again : Stores dir cert key found) : pair = found := by
  have sameCert := readString_of_stored stores.certFile
  have sameKey := readString_of_stored stores.keyFile
  rw [readString_of_stored again.certFile] at sameCert
  rw [readString_of_stored again.keyFile] at sameKey
  cases pair
  cases found
  cases sameCert
  cases sameKey
  rfl

theorem wellSigned_of_settled {identity : DaemonIdentity} (trusted : Trusted library dir)
    (settled : Settled identity dir)
    (decoded : pemToDer identity.ca.certPem = some identity.caCertDer) :
    WellSigned library identity := by
  obtain ⟨ca, authority, storesCa⟩ := trusted.ca.made settled.1.hasBoth
  obtain ⟨server, ⟨signer, seed, storesSigner, signed⟩, storesServer⟩ :=
    trusted.server.made settled.2.hasBoth
  obtain rfl := settled.1.unique storesCa
  obtain rfl := settled.1.unique storesSigner
  obtain rfl := settled.2.unique storesServer
  exact ⟨authority, decoded, seed, signed⟩

end Opening

section Restarts

variable {library} {events : List (Event (Seeds Seed))} {machine : Machine IdentityFile}

/-- However often the daemon crashes while it sets up its identity, the files
of a pair belong together and the server certificate is signed by the stored
authority.  The first open that succeeds fixes the identity: every later one
returns it and writes nothing. -/
theorem identity_survives_restarts
    (executed : Transition.run (step tmpOf (plan library)) (.idle fun _ => none) events =
      some machine) :
    Trusted library machine.dir ∧
      ∀ seeds identity, (openOrInit library machine.dir seeds).1 = .ok identity →
        WellSigned library identity ∧
        ∀ later final, Transition.run (step tmpOf (plan library))
            (.idle (perform tmpOf (plan library) machine.dir seeds)) later = some final →
          ∀ again, openOrInit library final.dir again = (.ok identity, []) := by
  have trusted := sustained_trusted.run tmpOf_mem_temporaries trusted_empty executed
  refine ⟨trusted, fun seeds identity opened => ?_⟩
  obtain ⟨decoded, settled⟩ := settled_of_openOrInit opened
  have written := agrees_replaceAll tmpOf_mem_temporaries machine.dir
    (plan library machine.dir seeds)
  have settledNow : Settled identity (perform tmpOf (plan library) machine.dir seeds) :=
    ⟨settled.1.congr (written _ (live_not_mem_temporaries _))
        (written _ (live_not_mem_temporaries _)),
      settled.2.congr (written _ (live_not_mem_temporaries _))
        (written _ (live_not_mem_temporaries _))⟩
  have trustedNow : Trusted library (overlay machine.dir (plan library machine.dir seeds)) := by
    have kept := sustained_trusted.kept trusted seeds (plan library machine.dir seeds).length
    rwa [List.take_length] at kept
  refine ⟨wellSigned_of_settled trustedNow settled decoded, fun later final continued again => ?_⟩
  have still := (sustained_settled decoded).run tmpOf_mem_temporaries settledNow continued
  exact openOrInit_of_settled still decoded

end Restarts

section Sample

/-- Certificates whose payload tells which key pair they are of. -/
def sampleLibrary : CertLibrary Bool where
  selfSigned seed := some
    ⟨if seed then "-----BEGIN CERTIFICATE-----\nTWFu\n-----END CERTIFICATE-----\n"
      else "-----BEGIN CERTIFICATE-----\nTWFv\n-----END CERTIFICATE-----\n",
      if seed then "first key" else "second key"⟩
  signedBy ca seed := some ⟨ca.certPem, if seed then "third key" else "fourth key"⟩

/-- An open that dies while it writes the key of the authority. -/
def interruptedBootstrap : List (Event (Seeds Bool)) :=
  [.begin ⟨true, true⟩, .advance, .advance, .advance, .advance, .stop 3]

/-- The next open, with all of its file steps. -/
def repeatedBootstrap (dir : Dir IdentityFile) : List (Event (Seeds Bool)) :=
  .begin ⟨false, true⟩ :: List.replicate
    (replaceAll tmpOf (plan sampleLibrary dir ⟨false, true⟩)).length .advance

theorem interrupted_bootstrap_is_repeated :
    ∃ machine identity,
      Transition.run (step tmpOf (plan sampleLibrary)) (.idle fun _ => none)
        interruptedBootstrap = some machine ∧
      Transition.run (step tmpOf (plan sampleLibrary)) (.idle fun _ => none)
        (interruptedBootstrap ++ repeatedBootstrap machine.dir) =
          some (.idle (perform tmpOf (plan sampleLibrary) machine.dir ⟨false, true⟩)) ∧
      Trusted sampleLibrary machine.dir ∧
      (openOrInit sampleLibrary machine.dir ⟨false, true⟩).1 = .ok identity ∧
      WellSigned sampleLibrary identity ∧
      ∀ later final, Transition.run (step tmpOf (plan sampleLibrary))
          (.idle (perform tmpOf (plan sampleLibrary) machine.dir ⟨false, true⟩)) later =
            some final →
        ∀ again, openOrInit sampleLibrary final.dir again = (.ok identity, []) := by
  have enabled : ((Transition.run (step tmpOf (plan sampleLibrary)) (.idle fun _ => none)
      interruptedBootstrap).any fun machine => machine.todo.isEmpty &&
        (openOrInit sampleLibrary machine.dir ⟨false, true⟩).1.isOk) = true := by
    decide +kernel
  obtain ⟨machine, executed, checked⟩ := (Option.any_eq_true _ _).mp enabled
  obtain ⟨resting, succeeds⟩ := Bool.and_eq_true_iff.mp checked
  have idle : machine = .idle machine.dir := by
    obtain ⟨dir, todo⟩ := machine
    obtain rfl : todo = [] := List.isEmpty_iff.mp resting
    rfl
  have repeated : Transition.run (step tmpOf (plan sampleLibrary)) (.idle fun _ => none)
      (interruptedBootstrap ++ repeatedBootstrap machine.dir) =
        some (.idle (perform tmpOf (plan sampleLibrary) machine.dir ⟨false, true⟩)) := by
    have performed : Transition.run (step tmpOf (plan sampleLibrary)) (.idle machine.dir)
        (repeatedBootstrap machine.dir) =
          some (.idle (perform tmpOf (plan sampleLibrary) machine.dir ⟨false, true⟩)) :=
      run_perform _ _
    rw [← idle] at performed
    rw [Transition.run_append, executed]
    exact performed
  cases opened : (openOrInit sampleLibrary machine.dir ⟨false, true⟩).1 with
  | error error =>
      rw [opened] at succeeds
      cases succeeds
  | ok identity =>
      obtain ⟨trusted, onward⟩ := identity_survives_restarts executed
      obtain ⟨wellSigned, stays⟩ := onward _ identity opened
      exact ⟨machine, identity, executed, repeated, trusted, opened, wellSigned, stays⟩

end Sample

end Busyncr.Daemon.Bootstrap
