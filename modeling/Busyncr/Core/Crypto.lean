import Busyncr.Core.Hashing
import Mathlib.Data.Set.Defs

/-!
Client-side sealing of chunks and manifests.

The cipher belongs to a library and is a parameter.  A blob is the nonce
followed by the ciphertext with its tag; a chunk is sealed with its ID as
associated data, a manifest with its snapshot ULID.
-/

namespace Busyncr

/-- The client-held key of one backup set. -/
structure DataKey where
  raw : Vector UInt8 32
deriving DecidableEq

def nonceLen : Nat := 24

def tagLen : Nat := 16

def blobOverhead : Nat := nonceLen + tagLen

inductive CryptoError where
  | encrypt
  | decrypt
  | blobTooShort (got : Nat)
  | keyfileFormat (reason : String)
  | keyfileVersion (version : UInt8)
  | kdf (reason : String)
  | keyfileUnlock
deriving DecidableEq

abbrev Nonce := Vector UInt8 24

/-- XChaCha20-Poly1305: encryption and decryption under a key, a nonce and
associated data. -/
structure Aead where
  encrypt : DataKey → (nonce aad msg : Bytes) → Option Bytes
  decrypt : DataKey → (nonce aad ciphertext : Bytes) → Option Bytes

/-- Decryption undoes encryption, and the ciphertext carries the tag. -/
structure Aead.Inverts (aead : Aead) : Prop where
  length : ∀ {key nonce aad msg ciphertext}, aead.encrypt key nonce aad msg = some ciphertext →
    ciphertext.length = msg.length + tagLen
  decrypt : ∀ {key nonce aad msg ciphertext}, aead.encrypt key nonce aad msg = some ciphertext →
    aead.decrypt key nonce aad ciphertext = some msg

/-- The ciphertext is longer than the plaintext by the tag. -/
def Aead.Lengthens (aead : Aead) : Prop :=
  ∀ {key nonce aad msg ciphertext}, aead.encrypt key nonce aad msg = some ciphertext →
    ciphertext.length = msg.length + tagLen

theorem Aead.Inverts.lengthens {aead : Aead} (inverts : aead.Inverts) : aead.Lengthens :=
  inverts.length

section Blobs

variable (aead : Aead) (key : DataKey)

/-- `seal`, with the nonce drawn for this blob. -/
def sealBlob (aad plaintext : Bytes) (nonce : Nonce) : Except CryptoError Bytes :=
  match aead.encrypt key nonce.toList aad plaintext with
  | none => .error .encrypt
  | some ciphertext => .ok (nonce.toList ++ ciphertext)

/-- `open`. -/
def openBlob (aad blob : Bytes) : Except CryptoError Bytes :=
  if blob.length < blobOverhead then
    .error (.blobTooShort blob.length)
  else
    match aead.decrypt key (blob.take nonceLen) aad (blob.drop nonceLen) with
    | none => .error .decrypt
    | some plaintext => .ok plaintext

def encryptChunk (id : ChunkId) (plaintext : Bytes) (nonce : Nonce) : Except CryptoError Bytes :=
  sealBlob aead key id.asBytes plaintext nonce

def decryptChunk (id : ChunkId) (blob : Bytes) : Except CryptoError Bytes :=
  openBlob aead key id.asBytes blob

def encryptManifest (snapshot : Ulid) (plaintext : Bytes) (nonce : Nonce) :
    Except CryptoError Bytes :=
  sealBlob aead key snapshot.toBytes plaintext nonce

def decryptManifest (snapshot : Ulid) (blob : Bytes) : Except CryptoError Bytes :=
  openBlob aead key snapshot.toBytes blob

end Blobs

theorem length_sealBlob {aead : Aead} (lengthens : aead.Lengthens) {key : DataKey}
    {aad plaintext blob : Bytes} {nonce : Nonce}
    (sealedOk : sealBlob aead key aad plaintext nonce = .ok blob) :
    blob.length = plaintext.length + blobOverhead := by
  unfold sealBlob at sealedOk
  split at sealedOk
  next => cases sealedOk
  next ciphertext produced =>
    cases sealedOk
    rw [List.length_append, lengthens produced, Vector.length_toList]
    simp only [blobOverhead, nonceLen]
    omega

theorem length_encryptChunk {aead : Aead} (lengthens : aead.Lengthens) {key : DataKey}
    {id : ChunkId} {plaintext blob : Bytes} {nonce : Nonce}
    (encrypted : encryptChunk aead key id plaintext nonce = .ok blob) :
    blob.length = plaintext.length + blobOverhead :=
  length_sealBlob lengthens encrypted

theorem length_encryptManifest {aead : Aead} (lengthens : aead.Lengthens) {key : DataKey}
    {snapshot : Ulid} {plaintext blob : Bytes} {nonce : Nonce}
    (encrypted : encryptManifest aead key snapshot plaintext nonce = .ok blob) :
    blob.length = plaintext.length + blobOverhead :=
  length_sealBlob lengthens encrypted

/-- What was sealed opens under the same key and associated data. -/
theorem openBlob_of_sealBlob {aead : Aead} (inverts : aead.Inverts) {key : DataKey}
    {aad plaintext blob : Bytes} {nonce : Nonce}
    (sealed : sealBlob aead key aad plaintext nonce = .ok blob) :
    openBlob aead key aad blob = .ok plaintext := by
  unfold sealBlob at sealed
  split at sealed
  next => cases sealed
  next ciphertext encrypted =>
    cases sealed
    have width : nonce.toList.length = nonceLen := by simp [nonceLen]
    have long : ¬ (nonce.toList ++ ciphertext).length < blobOverhead := by
      simp [inverts.length encrypted, blobOverhead, nonceLen]
    rw [openBlob, if_neg long, List.take_left' width, List.drop_left' width,
      inverts.decrypt encrypted]

/-- One use of the cipher to seal a plaintext. -/
structure Sealing where
  aad : Bytes
  plaintext : Bytes
  nonce : Nonce

/-- Under the key only blobs open that were sealed with the same associated
data. -/
def Authentic (aead : Aead) (key : DataKey) (sealings : Set Sealing) : Prop :=
  ∀ aad blob plaintext, openBlob aead key aad blob = .ok plaintext →
    ∃ sealing ∈ sealings, sealing.aad = aad ∧
      sealBlob aead key aad sealing.plaintext sealing.nonce = .ok blob

/-- What opens is what was sealed. -/
theorem Authentic.exists_sealing {aead : Aead} {key : DataKey} {sealings : Set Sealing}
    (authentic : Authentic aead key sealings) (inverts : aead.Inverts) {aad blob plaintext : Bytes}
    (opened : openBlob aead key aad blob = .ok plaintext) :
    ∃ sealing ∈ sealings, sealing.aad = aad ∧ sealing.plaintext = plaintext := by
  obtain ⟨sealing, membership, sameAad, sealed⟩ := authentic aad blob plaintext opened
  refine ⟨sealing, membership, sameAad, ?_⟩
  have back := openBlob_of_sealBlob inverts sealed
  rw [opened] at back
  exact (Except.ok.inj back).symm

/-- One recorded use of the cipher. -/
structure AeadRecord where
  key : DataKey
  sealing : Sealing
  ciphertext : Bytes

/-- The blob of a recorded use, its nonce in front. -/
def AeadRecord.blob (record : AeadRecord) : Bytes :=
  record.sealing.nonce.toList ++ record.ciphertext

/-- The cipher known from recorded uses only; it refuses everything else. -/
def Aead.ofRecords (records : List AeadRecord) : Aead where
  encrypt key nonce aad msg :=
    (records.find? fun record => record.key = key && record.sealing.nonce.toList = nonce &&
      record.sealing.aad = aad && record.sealing.plaintext = msg).map AeadRecord.ciphertext
  decrypt key nonce aad ciphertext :=
    (records.find? fun record => record.key = key && record.sealing.nonce.toList = nonce &&
      record.sealing.aad = aad && record.ciphertext = ciphertext).map fun record =>
        record.sealing.plaintext

/-- No two records contradict each other. -/
def Coherent (records : List AeadRecord) : Prop :=
  ∀ record ∈ records,
    (Aead.ofRecords records).encrypt record.key record.sealing.nonce.toList record.sealing.aad
        record.sealing.plaintext = some record.ciphertext ∧
      (Aead.ofRecords records).decrypt record.key record.sealing.nonce.toList record.sealing.aad
        record.ciphertext = some record.sealing.plaintext ∧
      record.ciphertext.length = record.sealing.plaintext.length + tagLen

instance (records : List AeadRecord) : Decidable (Coherent records) :=
  inferInstanceAs (Decidable (∀ record ∈ records, _))

theorem Coherent.inverts {records : List AeadRecord} (coherent : Coherent records) :
    (Aead.ofRecords records).Inverts := by
  have recorded : ∀ {key nonce aad msg ciphertext},
      (Aead.ofRecords records).encrypt key nonce aad msg = some ciphertext →
        ciphertext.length = msg.length + tagLen ∧
          (Aead.ofRecords records).decrypt key nonce aad ciphertext = some msg := by
    intro key nonce aad msg ciphertext encrypted
    obtain ⟨record, found, rfl⟩ := Option.map_eq_some_iff.mp encrypted
    have matched := List.find?_some found
    simp only [Bool.and_eq_true, decide_eq_true_eq] at matched
    obtain ⟨⟨⟨rfl, rfl⟩, rfl⟩, rfl⟩ := matched
    obtain ⟨_, decrypts, length⟩ := coherent record (List.mem_of_find?_eq_some found)
    exact ⟨length, decrypts⟩
  exact ⟨fun encrypted => (recorded encrypted).1, fun encrypted => (recorded encrypted).2⟩

/-- Under a key only what was recorded for it opens. -/
theorem Coherent.authentic_of_key {records : List AeadRecord} (coherent : Coherent records)
    (key : DataKey) :
    Authentic (Aead.ofRecords records) key
      {sealing | ∃ record ∈ records, record.key = key ∧ record.sealing = sealing} := by
  intro aad blob plaintext opened
  unfold openBlob at opened
  split at opened
  next => cases opened
  next =>
    split at opened
    next => cases opened
    next decrypted =>
      obtain ⟨record, found, _⟩ := Option.map_eq_some_iff.mp decrypted
      have matched := List.find?_some found
      simp only [Bool.and_eq_true, decide_eq_true_eq] at matched
      obtain ⟨⟨⟨rfl, sameNonce⟩, rfl⟩, sameCiphertext⟩ := matched
      have listed := List.mem_of_find?_eq_some found
      refine ⟨record.sealing, ⟨record, listed, rfl, rfl⟩, rfl, ?_⟩
      have encrypted := (coherent record listed).1
      rw [sameNonce, sameCiphertext] at encrypted
      simp [sealBlob, sameNonce, encrypted]

/-- Only what was recorded opens. -/
theorem Coherent.authentic {records : List AeadRecord} (coherent : Coherent records)
    (key : DataKey) :
    Authentic (Aead.ofRecords records) key {sealing | sealing ∈ records.map AeadRecord.sealing} := by
  intro aad blob plaintext opened
  obtain ⟨sealing, ⟨record, listed, _, rfl⟩, sameAad, sealed⟩ :=
    coherent.authentic_of_key key aad blob plaintext opened
  exact ⟨record.sealing, List.mem_map_of_mem listed, sameAad, sealed⟩

end Busyncr
