import Busyncr.Core.Crypto
import Busyncr.Core.Index
import Mathlib.Data.Set.Basic

/-!
The passphrase-protected keyfile, version 2: a header of 37 bytes with the
Argon2id parameters and the salt, then the two keys of the backup set sealed
under the derived key with the header as associated data.

Argon2id belongs to a library and is a parameter.  Every slice of the import
is taken through `slice?`, so that an index out of range would show as a
missing result.
-/

namespace Busyncr

/-- Argon2id cost parameters. -/
structure KdfParams where
  mCostKib : UInt32
  tCost : UInt32
  pCost : UInt32
deriving DecidableEq

abbrev Salt := Vector UInt8 16

/-- Argon2id: the key for a passphrase, a salt and parameters, or why the
library refuses them. -/
abbrev Argon2id := Bytes → Salt → KdfParams → Except String DataKey

/-- `BUSYNCRK`. -/
def keyfileMagic : Bytes := [0x42, 0x55, 0x53, 0x59, 0x4e, 0x43, 0x52, 0x4b]

def keyfileVersion : UInt8 := 2

def keyfileSaltLen : Nat := 16

def keyfilePayloadLen : Nat := 32 + 32

def keyfileHeaderLen : Nat := 8 + 1 + 4 + 4 + 4 + keyfileSaltLen

def keyfileLen : Nat := keyfileHeaderLen + nonceLen + keyfilePayloadLen + tagLen

/-- The bytes of a range, if it lies within the slice. -/
def slice? (bytes : Bytes) (start stop : Nat) : Option Bytes :=
  if start ≤ stop ∧ stop ≤ bytes.length then some ((bytes.drop start).take (stop - start)) else none

/-- A slice as an array of exactly its length. -/
def toArray? (size : Nat) (bytes : Bytes) : Option (Vector UInt8 size) :=
  if width : bytes.length = size then some ⟨bytes.toArray, by simpa using width⟩ else none

def keyfileHeader (params : KdfParams) (salt : Salt) : Bytes :=
  keyfileMagic ++ (keyfileVersion :: (leU32 params.mCostKib ++ (leU32 params.tCost ++
    (leU32 params.pCost ++ salt.toList))))

def keyfilePayload (dataKey : DataKey) (chunkIdKey : ChunkIdKey) : Bytes :=
  dataKey.raw.toList ++ chunkIdKey.raw.toList

def readU32 (bytes : Bytes) (offset : Nat) : Except CryptoError UInt32 :=
  match slice? bytes offset (offset + 4) with
  | none => .error (.keyfileFormat "file too short")
  | some slice => .ok (UInt32.ofNat (ByteCodec.littleValue slice))

def readParams (bytes : Bytes) : Except CryptoError KdfParams :=
  match readU32 bytes 9 with
  | .error error => .error error
  | .ok mCostKib =>
      match readU32 bytes 13 with
      | .error error => .error error
      | .ok tCost =>
          match readU32 bytes 17 with
          | .error error => .error error
          | .ok pCost => .ok ⟨mCostKib, tCost, pCost⟩

section Keyfiles

variable (aead : Aead) (argon2id : Argon2id)

/-- The key-encryption key of a passphrase. -/
def deriveKek (passphrase : Bytes) (salt : Salt) (params : KdfParams) :
    Except CryptoError DataKey :=
  match argon2id passphrase salt params with
  | .error reason => .error (.kdf reason)
  | .ok kek => .ok kek

/-- Seal both keys under a passphrase, with the salt and the nonce drawn for
this export. -/
def exportKeyfile (dataKey : DataKey) (chunkIdKey : ChunkIdKey) (passphrase : Bytes)
    (params : KdfParams) (salt : Salt) (nonce : Nonce) : Except CryptoError Bytes :=
  match deriveKek argon2id passphrase salt params with
  | .error error => .error error
  | .ok kek =>
      match sealBlob aead kek (keyfileHeader params salt) (keyfilePayload dataKey chunkIdKey)
          nonce with
      | .error error => .error error
      | .ok sealed => .ok (keyfileHeader params salt ++ sealed)

/-- A payload that does not open means a wrong passphrase or a changed file. -/
def unlockError : CryptoError → CryptoError
  | .decrypt => .keyfileUnlock
  | .blobTooShort _ => .keyfileUnlock
  | other => other

/-- The two keys of an opened payload. -/
def splitPayload (payload : Bytes) : Option (Except CryptoError (DataKey × ChunkIdKey)) :=
  if payload.length ≠ keyfilePayloadLen then
    some (.error (.keyfileFormat "sealed payload is not a 64-byte data key + chunk-ID key"))
  else do
    let dataBytes ← slice? payload 0 32
    let dataKey ← toArray? 32 dataBytes
    let chunkIdBytes ← slice? payload 32 payload.length
    let chunkIdKey ← toArray? 32 chunkIdBytes
    some (.ok (⟨dataKey⟩, ⟨chunkIdKey⟩))

/-- Derive the key and open the payload. -/
def unlockPayload (passphrase : Bytes) (params : KdfParams) (salt : Salt)
    (header sealed : Bytes) : Option (Except CryptoError (DataKey × ChunkIdKey)) :=
  match deriveKek argon2id passphrase salt params with
  | .error error => some (.error error)
  | .ok kek =>
      match openBlob aead kek header sealed with
      | .error error => some (.error (unlockError error))
      | .ok payload => splitPayload payload

/-- The fields of a file whose version and length were checked. -/
def importFields (bytes passphrase : Bytes) :
    Option (Except CryptoError (DataKey × ChunkIdKey)) :=
  match readParams bytes with
  | .error error => some (.error error)
  | .ok params => do
      let saltBytes ← slice? bytes 21 (21 + keyfileSaltLen)
      let salt ← toArray? 16 saltBytes
      let header ← slice? bytes 0 keyfileHeaderLen
      let sealed ← slice? bytes keyfileHeaderLen bytes.length
      unlockPayload aead argon2id passphrase params salt header sealed

/-- Import a keyfile; no result would be a panic. -/
def importKeyfile (bytes passphrase : Bytes) :
    Option (Except CryptoError (DataKey × ChunkIdKey)) :=
  if bytes.length < 9 then some (.error (.keyfileFormat "file too short"))
  else do
    let magic ← slice? bytes 0 8
    if magic ≠ keyfileMagic then some (.error (.keyfileFormat "bad magic bytes"))
    else do
      let version ← bytes[8]?
      if version ≠ keyfileVersion then some (.error (.keyfileVersion version))
      else if bytes.length ≠ keyfileLen then
        some (.error (.keyfileFormat "wrong length for version 2"))
      else importFields aead argon2id bytes passphrase

end Keyfiles

section Slices

/-- The slice between two parts of a file. -/
theorem slice?_middle (front middle back : Bytes) {start stop : Nat}
    (starts : front.length = start) (stops : start + middle.length = stop) :
    slice? (front ++ (middle ++ back)) start stop = some middle := by
  subst starts
  subst stops
  simp [slice?]

@[simp]
theorem toArray?_toList {size : Nat} (array : Vector UInt8 size) :
    toArray? size array.toList = some array := by
  have width : array.toList.length = size := by simp
  simp [toArray?, Vector.toList]

theorem toList_of_toArray? {size : Nat} {bytes : Bytes} {array : Vector UInt8 size}
    (read : toArray? size bytes = some array) : array.toList = bytes := by
  unfold toArray? at read
  split at read
  next width =>
    cases read
    simp [Vector.toList]
  next => cases read

theorem length_leU32 (value : UInt32) : (leU32 value).length = 4 := by
  simp [leU32]

theorem ofNat_littleValue_leU32 (value : UInt32) :
    UInt32.ofNat (ByteCodec.littleValue (leU32 value)) = value := by
  rw [leU32, ByteCodec.littleValue_little_of_lt (show value.toNat < 256 ^ 4 from value.toNat_lt),
    UInt32.ofNat_toNat]

theorem leU32_ofNat_littleValue {bytes : Bytes} (width : bytes.length = 4) :
    leU32 (UInt32.ofNat (ByteCodec.littleValue bytes)) = bytes := by
  have small := ByteCodec.littleValue_lt bytes
  have back := ByteCodec.little_littleValue bytes
  rw [width] at small back
  rw [leU32, UInt32.toNat_ofNat',
    Nat.mod_eq_of_lt (show ByteCodec.littleValue bytes < 2 ^ 32 from small), back]

@[simp]
theorem length_keyfileHeader (params : KdfParams) (salt : Salt) :
    (keyfileHeader params salt).length = keyfileHeaderLen := by
  simp [keyfileHeader, keyfileMagic, length_leU32, keyfileHeaderLen, keyfileSaltLen]

theorem readU32_middle {front back : Bytes} {offset : Nat} (value : UInt32)
    (starts : front.length = offset) :
    readU32 (front ++ (leU32 value ++ back)) offset = .ok value := by
  have read := slice?_middle front (leU32 value) back starts
    (show offset + (leU32 value).length = offset + 4 by rw [length_leU32])
  simp only [readU32, read, ofNat_littleValue_leU32]

/-- The header is read back from its fields. -/
theorem readParams_keyfileHeader (params : KdfParams) (salt : Salt) (sealed : Bytes) :
    readParams (keyfileHeader params salt ++ sealed) = .ok params := by
  have first : keyfileHeader params salt ++ sealed =
      (keyfileMagic ++ [keyfileVersion]) ++ (leU32 params.mCostKib ++
        (leU32 params.tCost ++ (leU32 params.pCost ++ (salt.toList ++ sealed)))) := by
    simp [keyfileHeader]
  have second : keyfileHeader params salt ++ sealed =
      (keyfileMagic ++ keyfileVersion :: leU32 params.mCostKib) ++ (leU32 params.tCost ++
        (leU32 params.pCost ++ (salt.toList ++ sealed))) := by
    simp [keyfileHeader]
  have third : keyfileHeader params salt ++ sealed =
      (keyfileMagic ++ keyfileVersion :: (leU32 params.mCostKib ++ leU32 params.tCost)) ++
        (leU32 params.pCost ++ (salt.toList ++ sealed)) := by
    simp [keyfileHeader]
  have mCost : readU32 (keyfileHeader params salt ++ sealed) 9 = .ok params.mCostKib := by
    rw [first]
    exact readU32_middle _ (by simp [keyfileMagic])
  have tCost : readU32 (keyfileHeader params salt ++ sealed) 13 = .ok params.tCost := by
    rw [second]
    exact readU32_middle _ (by simp [keyfileMagic, length_leU32])
  have pCost : readU32 (keyfileHeader params salt ++ sealed) 17 = .ok params.pCost := by
    rw [third]
    exact readU32_middle _ (by simp [keyfileMagic, length_leU32])
  simp only [readParams, mCost, tCost, pCost]

theorem slice?_salt (params : KdfParams) (salt : Salt) (sealed : Bytes) :
    slice? (keyfileHeader params salt ++ sealed) 21 (21 + keyfileSaltLen) = some salt.toList := by
  have parts : keyfileHeader params salt ++ sealed =
      (keyfileMagic ++ keyfileVersion :: (leU32 params.mCostKib ++ (leU32 params.tCost ++
        leU32 params.pCost))) ++ (salt.toList ++ sealed) := by
    simp [keyfileHeader]
  rw [parts]
  exact slice?_middle _ _ _ (by simp [keyfileMagic, length_leU32]) (by simp [keyfileSaltLen])

end Slices

section Layout

variable {aead : Aead} {argon2id : Argon2id}

/-- On a file of the right length that starts with a header, the import opens
what follows the header. -/
theorem importKeyfile_layout (passphrase : Bytes) (params : KdfParams) (salt : Salt)
    {sealed : Bytes} (whole : (keyfileHeader params salt ++ sealed).length = keyfileLen) :
    importKeyfile aead argon2id (keyfileHeader params salt ++ sealed) passphrase =
      unlockPayload aead argon2id passphrase params salt (keyfileHeader params salt) sealed := by
  have long : ¬ keyfileLen < 9 := by decide
  have magic : slice? (keyfileHeader params salt ++ sealed) 0 8 = some keyfileMagic := by
    have parts : keyfileHeader params salt ++ sealed = [] ++ (keyfileMagic ++
        (keyfileVersion :: (leU32 params.mCostKib ++ (leU32 params.tCost ++
          (leU32 params.pCost ++ salt.toList))) ++ sealed)) := by
      simp [keyfileHeader]
    rw [parts]
    exact slice?_middle _ _ _ rfl rfl
  have version : (keyfileHeader params salt ++ sealed)[8]? = some keyfileVersion := by
    simp [keyfileHeader, keyfileMagic]
  have header : slice? (keyfileHeader params salt ++ sealed) 0 keyfileHeaderLen =
      some (keyfileHeader params salt) := by
    have read := slice?_middle [] (keyfileHeader params salt) sealed rfl
      (show 0 + (keyfileHeader params salt).length = keyfileHeaderLen by simp)
    rwa [List.nil_append] at read
  have body : slice? (keyfileHeader params salt ++ sealed) keyfileHeaderLen
      (keyfileHeader params salt ++ sealed).length = some sealed := by
    have read := slice?_middle _ sealed [] (length_keyfileHeader params salt)
      (show keyfileHeaderLen + sealed.length = (keyfileHeader params salt ++ sealed).length by
        simp)
    rwa [List.append_nil] at read
  have fields : importFields aead argon2id (keyfileHeader params salt ++ sealed) passphrase =
      unlockPayload aead argon2id passphrase params salt (keyfileHeader params salt) sealed := by
    simp only [importFields, readParams_keyfileHeader, slice?_salt, Option.bind_eq_bind,
      Option.bind_some, toArray?_toList, header, body]
  simp only [importKeyfile, whole, if_neg long, magic, Option.bind_eq_bind, Option.bind_some, ne_eq,
    not_true_eq_false, if_false, version, fields]

/-- A file that passes the checks of magic, version and length starts with a
header. -/
theorem exists_layout {bytes : Bytes} (magic : bytes.take 8 = keyfileMagic)
    (version : bytes[8]? = some keyfileVersion) (whole : bytes.length = keyfileLen) :
    ∃ params salt sealed, bytes = keyfileHeader params salt ++ sealed := by
  have width : ∀ start count, start + count ≤ keyfileLen →
      ((bytes.drop start).take count).length = count := by
    intro start count bound
    rw [List.length_take, List.length_drop, whole]
    omega
  have mBytes := leU32_ofNat_littleValue (width 9 4 (by decide))
  have tBytes := leU32_ofNat_littleValue (width 13 4 (by decide))
  have pBytes := leU32_ofNat_littleValue (width 17 4 (by decide))
  have saltWidth := width 21 16 (by decide)
  refine ⟨⟨UInt32.ofNat (ByteCodec.littleValue ((bytes.drop 9).take 4)),
    UInt32.ofNat (ByteCodec.littleValue ((bytes.drop 13).take 4)),
    UInt32.ofNat (ByteCodec.littleValue ((bytes.drop 17).take 4))⟩,
    ⟨((bytes.drop 21).take 16).toArray, by simpa using saltWidth⟩, bytes.drop 37, ?_⟩
  have versionByte : bytes.drop 8 = keyfileVersion :: bytes.drop 9 := by
    obtain ⟨inRange, isVersion⟩ := List.getElem?_eq_some_iff.mp version
    rw [← isVersion]
    exact List.drop_eq_getElem_cons inRange
  have next : ∀ start count, bytes.drop start =
      (bytes.drop start).take count ++ bytes.drop (start + count) := by
    intro start count
    rw [← List.drop_drop]
    exact (List.take_append_drop count _).symm
  have fields : bytes.drop 9 = (bytes.drop 9).take 4 ++ ((bytes.drop 13).take 4 ++
      ((bytes.drop 17).take 4 ++ ((bytes.drop 21).take 16 ++ bytes.drop 37))) :=
    (next 9 4).trans (congrArg _ ((next 13 4).trans (congrArg _ ((next 17 4).trans
      (congrArg _ (next 21 16))))))
  calc
    bytes = bytes.take 8 ++ bytes.drop 8 := (List.take_append_drop 8 bytes).symm
    _ = keyfileMagic ++ (keyfileVersion :: bytes.drop 9) := by rw [magic, versionByte]
    _ = keyfileMagic ++ (keyfileVersion :: ((bytes.drop 9).take 4 ++ ((bytes.drop 13).take 4 ++
          ((bytes.drop 17).take 4 ++ ((bytes.drop 21).take 16 ++ bytes.drop 37))))) := by
      rw [← fields]
    _ = _ := by
      simp only [keyfileHeader, mBytes, tBytes, pBytes, Vector.toList]
      simp

end Layout

section Exports

variable (aead : Aead) (argon2id : Argon2id)

/-- One use of `export_keyfile`, with the randomness it drew. -/
structure KeyfileExport where
  dataKey : DataKey
  chunkIdKey : ChunkIdKey
  passphrase : Bytes
  params : KdfParams
  salt : Salt
  nonce : Nonce

/-- The file of an export. -/
def KeyfileExport.file (made : KeyfileExport) : Except CryptoError Bytes :=
  exportKeyfile aead argon2id made.dataKey made.chunkIdKey made.passphrase made.params made.salt
    made.nonce

/-- The use of the cipher an export makes. -/
def KeyfileExport.sealing (made : KeyfileExport) : Sealing :=
  ⟨keyfileHeader made.params made.salt, keyfilePayload made.dataKey made.chunkIdKey, made.nonce⟩

/-- Under every key only blobs open that were sealed under that key with the
same associated data; whatever was sealed with the header of a keyfile came
from one of these exports. -/
structure SealedByExports (sealings : Set (DataKey × Sealing)) (exports : Set KeyfileExport) :
    Prop where
  authentic : ∀ key, Authentic aead key {sealing | (key, sealing) ∈ sealings}
  exported : ∀ key sealing, (key, sealing) ∈ sealings →
    sealing.aad.length = keyfileHeaderLen → ∃ made ∈ exports, made.sealing = sealing ∧
      argon2id made.passphrase made.salt made.params = .ok key

/-- Different passphrases of the set are never derived to one key. -/
def Argon2id.InjectiveOn (passphrases : Set Bytes) : Prop :=
  ∀ first ∈ passphrases, ∀ second ∈ passphrases, ∀ salt params kek,
    argon2id first salt params = .ok kek → argon2id second salt params = .ok kek → first = second

end Exports

section RoundTrip

variable {aead : Aead} {argon2id : Argon2id}

theorem splitPayload_keyfilePayload (dataKey : DataKey) (chunkIdKey : ChunkIdKey) :
    splitPayload (keyfilePayload dataKey chunkIdKey) = some (.ok (dataKey, chunkIdKey)) := by
  have whole : (keyfilePayload dataKey chunkIdKey).length = keyfilePayloadLen := by
    simp [keyfilePayload, keyfilePayloadLen]
  have first : slice? (keyfilePayload dataKey chunkIdKey) 0 32 = some dataKey.raw.toList := by
    have read := slice?_middle [] dataKey.raw.toList chunkIdKey.raw.toList rfl
      (show 0 + dataKey.raw.toList.length = 32 by simp)
    rwa [List.nil_append] at read
  have second : slice? (keyfilePayload dataKey chunkIdKey) 32
      (keyfilePayload dataKey chunkIdKey).length = some chunkIdKey.raw.toList := by
    have read := slice?_middle dataKey.raw.toList chunkIdKey.raw.toList []
      (show dataKey.raw.toList.length = 32 by simp)
      (show 32 + chunkIdKey.raw.toList.length = (keyfilePayload dataKey chunkIdKey).length by
        simp [keyfilePayload])
    rwa [List.append_nil] at read
  rw [whole] at second
  simp only [splitPayload, whole, ne_eq, not_true_eq_false, if_false, first, second,
    Option.bind_eq_bind, Option.bind_some, toArray?_toList]

/-- The payload that splits into two keys is made of them. -/
theorem splitPayload_ok {payload : Bytes} {dataKey : DataKey} {chunkIdKey : ChunkIdKey}
    (split : splitPayload payload = some (.ok (dataKey, chunkIdKey))) :
    payload = keyfilePayload dataKey chunkIdKey := by
  by_cases whole : payload.length = keyfilePayloadLen
  · have firstWidth : (payload.take 32).length = 32 := by
      rw [List.length_take, whole]
      decide
    have secondWidth : (payload.drop 32).length = 32 := by
      rw [List.length_drop, whole]
      decide
    have parts : payload = keyfilePayload ⟨⟨(payload.take 32).toArray, by simpa using firstWidth⟩⟩
        ⟨⟨(payload.drop 32).toArray, by simpa using secondWidth⟩⟩ := by
      simp [keyfilePayload, Vector.toList]
    rw [parts, splitPayload_keyfilePayload] at split
    cases split
    exact parts
  · rw [splitPayload, if_pos whole] at split
    cases split

theorem unlockPayload_sealed (inverts : aead.Inverts) (made : KeyfileExport) {kek : DataKey}
    {sealed : Bytes} (derived : argon2id made.passphrase made.salt made.params = .ok kek)
    (sealedOk : sealBlob aead kek made.sealing.aad made.sealing.plaintext made.nonce =
      .ok sealed) :
    unlockPayload aead argon2id made.passphrase made.params made.salt made.sealing.aad sealed =
      some (.ok (made.dataKey, made.chunkIdKey)) := by
  have opened := openBlob_of_sealBlob inverts sealedOk
  simp only [unlockPayload, deriveKek, derived, opened]
  exact splitPayload_keyfilePayload _ _

theorem file_ok {made : KeyfileExport} {bytes : Bytes}
    (exported : made.file aead argon2id = .ok bytes) :
    ∃ kek sealed, argon2id made.passphrase made.salt made.params = .ok kek ∧
      sealBlob aead kek made.sealing.aad made.sealing.plaintext made.nonce = .ok sealed ∧
      bytes = made.sealing.aad ++ sealed := by
  unfold KeyfileExport.file exportKeyfile deriveKek at exported
  cases derived : argon2id made.passphrase made.salt made.params with
  | error reason =>
      rw [derived] at exported
      cases exported
  | ok kek =>
      simp only [derived] at exported
      split at exported
      next => cases exported
      next sealed sealedOk =>
        cases exported
        exact ⟨kek, sealed, rfl, sealedOk, rfl⟩

/-- The file of an export has its fixed length and imports to the keys. -/
theorem importKeyfile_file (inverts : aead.Inverts) {made : KeyfileExport} {bytes : Bytes}
    (exported : made.file aead argon2id = .ok bytes) :
    bytes.length = keyfileLen ∧
      importKeyfile aead argon2id bytes made.passphrase =
        some (.ok (made.dataKey, made.chunkIdKey)) := by
  obtain ⟨kek, sealed, derived, sealedOk, rfl⟩ := file_ok exported
  have whole : (made.sealing.aad ++ sealed).length = keyfileLen := by
    rw [List.length_append, length_sealBlob inverts.lengthens sealedOk]
    simp [KeyfileExport.sealing, keyfilePayload, keyfileLen, keyfilePayloadLen, blobOverhead]
    omega
  refine ⟨whole, ?_⟩
  have laidOut : importKeyfile aead argon2id (made.sealing.aad ++ sealed) made.passphrase = _ :=
    importKeyfile_layout made.passphrase made.params made.salt whole
  rw [laidOut]
  exact unlockPayload_sealed inverts made derived sealedOk

end RoundTrip

section Import

variable {aead : Aead} {argon2id : Argon2id}

theorem splitPayload_total (payload : Bytes) : ∃ outcome, splitPayload payload = some outcome := by
  by_cases whole : payload.length = keyfilePayloadLen
  · have inFirst : 0 ≤ 32 ∧ 32 ≤ payload.length := by
      rw [whole]
      decide
    have inSecond : 32 ≤ payload.length ∧ payload.length ≤ payload.length := ⟨inFirst.2, le_rfl⟩
    have firstWidth : ((payload.drop 0).take (32 - 0)).length = 32 := by
      simp [whole, keyfilePayloadLen]
    have secondWidth : ((payload.drop 32).take (payload.length - 32)).length = 32 := by
      simp [whole, keyfilePayloadLen]
    simp only [splitPayload, whole, ne_eq, not_true_eq_false, if_false]
    rw [← whole]
    simp only [slice?, if_pos inFirst, if_pos inSecond, Option.bind_eq_bind, Option.bind_some,
      toArray?, dif_pos firstWidth, dif_pos secondWidth]
    exact ⟨_, rfl⟩
  · exact ⟨_, if_pos whole⟩

theorem unlockPayload_total (passphrase : Bytes) (params : KdfParams) (salt : Salt)
    (header sealed : Bytes) :
    ∃ outcome, unlockPayload aead argon2id passphrase params salt header sealed =
      some outcome := by
  unfold unlockPayload
  split
  next => exact ⟨_, rfl⟩
  next =>
    split
    next => exact ⟨_, rfl⟩
    next payload _ => exact splitPayload_total payload

theorem slice?_magic {bytes : Bytes} (long : ¬ bytes.length < 9) :
    slice? bytes 0 8 = some (bytes.take 8) := by
  rw [slice?, if_pos ⟨by omega, by omega⟩]
  simp

/-- A file too short or without the magic bytes has the wrong format. -/
theorem importKeyfile_unmarked {bytes : Bytes} (passphrase : Bytes)
    (unmarked : bytes.length < 9 ∨ bytes.take 8 ≠ keyfileMagic) :
    ∃ reason, importKeyfile aead argon2id bytes passphrase =
      some (.error (.keyfileFormat reason)) := by
  by_cases short : bytes.length < 9
  · exact ⟨_, if_pos short⟩
  · have magic := unmarked.resolve_left short
    refine ⟨"bad magic bytes", ?_⟩
    simp only [importKeyfile, if_neg short, slice?_magic short, Option.bind_eq_bind,
      Option.bind_some, if_pos magic]

/-- Another version is named as such, whatever follows. -/
theorem importKeyfile_otherVersion {bytes : Bytes} (passphrase : Bytes) (long : 9 ≤ bytes.length)
    (magic : bytes.take 8 = keyfileMagic) {version : UInt8} (found : bytes[8]? = some version)
    (other : version ≠ keyfileVersion) :
    importKeyfile aead argon2id bytes passphrase = some (.error (.keyfileVersion version)) := by
  have notShort : ¬ bytes.length < 9 := by omega
  simp only [importKeyfile, if_neg notShort, slice?_magic notShort, Option.bind_eq_bind,
    Option.bind_some, if_neg (not_not.mpr magic), found, if_pos other]

theorem importKeyfile_otherLength {bytes : Bytes} (passphrase : Bytes) (long : 9 ≤ bytes.length)
    (magic : bytes.take 8 = keyfileMagic) (found : bytes[8]? = some keyfileVersion)
    (other : bytes.length ≠ keyfileLen) :
    ∃ reason, importKeyfile aead argon2id bytes passphrase =
      some (.error (.keyfileFormat reason)) := by
  have notShort : ¬ bytes.length < 9 := by omega
  refine ⟨"wrong length for version 2", ?_⟩
  simp only [importKeyfile, if_neg notShort, slice?_magic notShort, Option.bind_eq_bind,
    Option.bind_some, if_neg (not_not.mpr magic), found, ne_eq, not_true_eq_false, if_false,
    if_pos other]

/-- For every file the import either refuses it in a check or unlocks what
follows its header. -/
theorem importKeyfile_cases (bytes passphrase : Bytes) :
    (∃ error, importKeyfile aead argon2id bytes passphrase = some (.error error)) ∨
      ∃ params salt sealed, bytes = keyfileHeader params salt ++ sealed ∧
        importKeyfile aead argon2id bytes passphrase =
          unlockPayload aead argon2id passphrase params salt (keyfileHeader params salt)
            sealed := by
  by_cases unmarked : bytes.length < 9 ∨ bytes.take 8 ≠ keyfileMagic
  · obtain ⟨reason, refused⟩ := importKeyfile_unmarked passphrase unmarked
    exact .inl ⟨_, refused⟩
  · simp only [not_or, not_lt, ne_eq, not_not] at unmarked
    obtain ⟨long, magic⟩ := unmarked
    obtain ⟨version, found⟩ : ∃ version, bytes[8]? = some version :=
      ⟨_, List.getElem?_eq_getElem (by omega)⟩
    by_cases current : version = keyfileVersion
    · subst current
      by_cases whole : bytes.length = keyfileLen
      · obtain ⟨params, salt, sealed, rfl⟩ := exists_layout magic found whole
        exact .inr ⟨params, salt, sealed, rfl, importKeyfile_layout passphrase params salt whole⟩
      · obtain ⟨reason, refused⟩ := importKeyfile_otherLength passphrase long magic found whole
        exact .inl ⟨_, refused⟩
    · exact .inl ⟨_, importKeyfile_otherVersion passphrase long magic found current⟩

theorem importKeyfile_total (bytes passphrase : Bytes) :
    ∃ outcome, importKeyfile aead argon2id bytes passphrase = some outcome := by
  rcases importKeyfile_cases bytes passphrase with ⟨_, refused⟩ | ⟨params, salt, sealed, _, unlocked⟩
  · exact ⟨_, refused⟩
  · rw [unlocked]
    exact unlockPayload_total passphrase params salt _ sealed

theorem importKeyfile_ok {bytes passphrase : Bytes} {dataKey : DataKey} {chunkIdKey : ChunkIdKey}
    (imported : importKeyfile aead argon2id bytes passphrase =
      some (.ok (dataKey, chunkIdKey))) :
    ∃ params salt sealed kek, bytes = keyfileHeader params salt ++ sealed ∧
      argon2id passphrase salt params = .ok kek ∧
      openBlob aead kek (keyfileHeader params salt) sealed =
        .ok (keyfilePayload dataKey chunkIdKey) := by
  rcases importKeyfile_cases bytes passphrase with
    ⟨_, refused⟩ | ⟨params, salt, sealed, laidOut, unlocked⟩
  · cases imported.symm.trans refused
  · rw [unlocked] at imported
    unfold unlockPayload deriveKek at imported
    cases derived : argon2id passphrase salt params with
    | error reason =>
        rw [derived] at imported
        cases imported
    | ok kek =>
        simp only [derived] at imported
        split at imported
        next => cases imported
        next payload opened =>
          rw [splitPayload_ok imported] at opened
          exact ⟨params, salt, sealed, kek, laidOut, derived, opened⟩

theorem keyfileHeader_injective {params other : KdfParams} {salt otherSalt : Salt}
    (same : keyfileHeader params salt = keyfileHeader other otherSalt) :
    params = other ∧ salt = otherSalt := by
  have readFirst := readParams_keyfileHeader params salt []
  have saltFirst := slice?_salt params salt []
  rw [same, readParams_keyfileHeader] at readFirst
  rw [same, slice?_salt] at saltFirst
  cases readFirst
  refine ⟨rfl, ?_⟩
  have lists := Option.some.inj saltFirst
  have arrays := congrArg (toArray? 16) lists
  rw [toArray?_toList, toArray?_toList] at arrays
  exact (Option.some.inj arrays).symm

theorem keyfilePayload_injective {dataKey otherData : DataKey} {chunkIdKey otherChunk : ChunkIdKey}
    (same : keyfilePayload dataKey chunkIdKey = keyfilePayload otherData otherChunk) :
    dataKey = otherData ∧ chunkIdKey = otherChunk := by
  have first := splitPayload_keyfilePayload dataKey chunkIdKey
  rw [same, splitPayload_keyfilePayload] at first
  cases first
  exact ⟨rfl, rfl⟩

variable {passphrases : Set Bytes} {sealings : Set (DataKey × Sealing)}
  {exports : Set KeyfileExport}

/-- What imports was exported: by an export with the same passphrase, keys,
parameters and salt. -/
theorem exported_of_imported (inverts : aead.Inverts)
    (injective : Argon2id.InjectiveOn argon2id passphrases)
    (sealedBy : SealedByExports aead argon2id sealings exports)
    (known : ∀ made ∈ exports, made.passphrase ∈ passphrases) {bytes passphrase : Bytes}
    (tried : passphrase ∈ passphrases) {dataKey : DataKey} {chunkIdKey : ChunkIdKey}
    (imported : importKeyfile aead argon2id bytes passphrase =
      some (.ok (dataKey, chunkIdKey))) :
    ∃ made ∈ exports, made.dataKey = dataKey ∧ made.chunkIdKey = chunkIdKey ∧
      made.passphrase = passphrase ∧ made.file aead argon2id = .ok bytes ∧
      ∃ sealed, bytes = keyfileHeader made.params made.salt ++ sealed := by
  obtain ⟨params, salt, sealed, kek, rfl, derived, opened⟩ := importKeyfile_ok imported
  obtain ⟨sealing, membership, sameAad, sealedOk⟩ := sealedBy.authentic kek _ _ _ opened
  have back := openBlob_of_sealBlob inverts sealedOk
  rw [opened] at back
  have payload := Except.ok.inj back
  have headed : sealing.aad.length = keyfileHeaderLen := by
    rw [sameAad, length_keyfileHeader]
  obtain ⟨made, listed, rfl, derivedMade⟩ := sealedBy.exported kek sealing membership headed
  obtain ⟨rfl, rfl⟩ := keyfileHeader_injective sameAad
  obtain ⟨rfl, rfl⟩ := keyfilePayload_injective payload
  obtain rfl := injective _ (known made listed) _ tried _ _ _ derivedMade derived
  refine ⟨made, listed, rfl, rfl, rfl, ?_, sealed, rfl⟩
  have sealedAgain : sealBlob aead kek (keyfileHeader made.params made.salt)
      (keyfilePayload made.dataKey made.chunkIdKey) made.nonce = .ok sealed := sealedOk
  simp only [KeyfileExport.file, exportKeyfile, deriveKek, derivedMade, sealedAgain]

/-- The keyfile format: exports import to their keys; where nothing else is
sealed under the derived keys, only exports import; and every other file is
refused with the error of the first check it fails. -/
theorem keyfile_round_trips_and_is_unforgeable (inverts : aead.Inverts) :
    (∀ (made : KeyfileExport) (kek : DataKey) (ciphertext : Bytes),
        argon2id made.passphrase made.salt made.params = .ok kek →
        aead.encrypt kek made.nonce.toList (keyfileHeader made.params made.salt)
          (keyfilePayload made.dataKey made.chunkIdKey) = some ciphertext →
        ∃ bytes, made.file aead argon2id = .ok bytes ∧ bytes.length = keyfileLen ∧
          importKeyfile aead argon2id bytes made.passphrase =
            some (.ok (made.dataKey, made.chunkIdKey))) ∧
      (Argon2id.InjectiveOn argon2id passphrases →
        SealedByExports aead argon2id sealings exports →
        (∀ made ∈ exports, made.passphrase ∈ passphrases) →
        (∀ bytes, ∀ passphrase ∈ passphrases, ∀ dataKey chunkIdKey,
          importKeyfile aead argon2id bytes passphrase = some (.ok (dataKey, chunkIdKey)) →
          ∃ made ∈ exports, made.dataKey = dataKey ∧ made.chunkIdKey = chunkIdKey ∧
            made.passphrase = passphrase ∧ made.file aead argon2id = .ok bytes ∧
            ∃ sealed, bytes = keyfileHeader made.params made.salt ++ sealed) ∧
        ∀ bytes, ∀ passphrase ∈ passphrases,
          (∀ made ∈ exports, made.file aead argon2id = .ok bytes → made.passphrase ≠ passphrase) →
          ∃ error, importKeyfile aead argon2id bytes passphrase = some (.error error)) ∧
      ∀ bytes passphrase : Bytes,
        (∃ outcome, importKeyfile aead argon2id bytes passphrase = some outcome) ∧
        (bytes.length < 9 ∨ bytes.take 8 ≠ keyfileMagic →
          ∃ reason, importKeyfile aead argon2id bytes passphrase =
            some (.error (.keyfileFormat reason))) ∧
        (9 ≤ bytes.length → bytes.take 8 = keyfileMagic → ∀ version, bytes[8]? = some version →
          (version ≠ keyfileVersion → importKeyfile aead argon2id bytes passphrase =
            some (.error (.keyfileVersion version))) ∧
          (version = keyfileVersion → bytes.length ≠ keyfileLen →
            ∃ reason, importKeyfile aead argon2id bytes passphrase =
              some (.error (.keyfileFormat reason)))) := by
  refine ⟨?_, fun injective sealedBy known => ⟨?_, ?_⟩, ?_⟩
  · intro made kek ciphertext derived encrypted
    have exported : made.file aead argon2id =
        .ok (keyfileHeader made.params made.salt ++ (made.nonce.toList ++ ciphertext)) := by
      simp only [KeyfileExport.file, exportKeyfile, deriveKek, derived, sealBlob, encrypted]
    exact ⟨_, exported, importKeyfile_file inverts exported⟩
  · intro bytes passphrase tried dataKey chunkIdKey imported
    exact exported_of_imported inverts injective sealedBy known tried imported
  · intro bytes passphrase tried unmade
    have total : ∃ outcome, importKeyfile aead argon2id bytes passphrase = some outcome :=
      importKeyfile_total bytes passphrase
    obtain ⟨outcome, returned⟩ := total
    cases outcome with
    | error error => exact ⟨error, returned⟩
    | ok keys =>
        obtain ⟨made, listed, _, _, same, exported, _⟩ :=
          exported_of_imported inverts injective sealedBy known tried returned
        exact absurd same (unmade made listed exported)
  · intro bytes passphrase
    exact ⟨importKeyfile_total bytes passphrase, importKeyfile_unmarked passphrase,
      fun long magic version found => ⟨importKeyfile_otherVersion passphrase long magic found,
        fun current => importKeyfile_otherLength passphrase long magic (current ▸ found)⟩⟩

end Import

section Sample

/-- One export under the passphrase `pw`. -/
def sampleExport : KeyfileExport where
  dataKey := ⟨.replicate 32 1⟩
  chunkIdKey := ⟨.replicate 32 0⟩
  passphrase := [0x70, 0x77]
  params := ⟨16, 1, 1⟩
  salt := .replicate 16 4
  nonce := .replicate 24 5

/-- What Argon2id derives for the export. -/
def sampleKek : DataKey :=
  ⟨#v[0x17, 0x28, 0xb9, 0x8e, 0x56, 0x21, 0xba, 0x5e, 0xe2, 0x2d, 0x74, 0x7f,
      0x2f, 0xf5, 0xd4, 0x37, 0xa0, 0x5d, 0xd5, 0xcb, 0x44, 0x96, 0x07, 0x3d,
      0x5a, 0x43, 0x04, 0x29, 0x99, 0x9d, 0x2b, 0xde]⟩

def sampleArgon2id : Argon2id := fun passphrase salt params =>
  if passphrase = sampleExport.passphrase ∧ salt = sampleExport.salt ∧
    params = sampleExport.params then .ok sampleKek
  else .error "parameters not recorded"

/-- The export's use of XChaCha20-Poly1305. -/
def sampleKeyfileRecords : List AeadRecord :=
  [{ key := sampleKek
     sealing := sampleExport.sealing
     ciphertext := [0x47, 0x54, 0x4c, 0xf9, 0x18, 0xf9, 0x89, 0x2a, 0xd1, 0xe1, 0x5f, 0x12,
        0x91, 0x9d, 0x5a, 0x37, 0xda, 0x6d, 0x60, 0xc4, 0x0b, 0xd2, 0xf8, 0xee,
        0xab, 0x5f, 0x5c, 0xfe, 0xe5, 0x2a, 0x19, 0x29, 0x7a, 0xb0, 0xe4, 0x56,
        0x51, 0x77, 0x64, 0xa2, 0xd2, 0x25, 0xce, 0xc1, 0xaf, 0x4e, 0xe6, 0xb2,
        0x2f, 0xfd, 0xcb, 0x3e, 0x4f, 0x38, 0x79, 0xb9, 0x67, 0x5f, 0x47, 0x48,
        0x85, 0x01, 0xb3, 0xde, 0x8d, 0x5d, 0x7d, 0xc9, 0xfc, 0x6f, 0xe8, 0x30,
        0xda, 0x1d, 0xf6, 0xb0, 0x5f, 0x3b, 0x25, 0x42] }]

theorem sampleKeyfileRecords_coherent : Coherent sampleKeyfileRecords := by decide +kernel

theorem sample_sealedByExports :
    SealedByExports (.ofRecords sampleKeyfileRecords) sampleArgon2id
      {use | ∃ record ∈ sampleKeyfileRecords, record.key = use.1 ∧ record.sealing = use.2}
      {sampleExport} := by
  refine ⟨sampleKeyfileRecords_coherent.authentic_of_key, ?_⟩
  rintro key sealing ⟨record, listed, rfl, rfl⟩ _
  obtain rfl := List.mem_singleton.mp listed
  exact ⟨sampleExport, rfl, rfl, by decide⟩

theorem sample_keyfile_imports :
    (∃ bytes, sampleExport.file (.ofRecords sampleKeyfileRecords) sampleArgon2id = .ok bytes ∧
      bytes.length = keyfileLen ∧
      importKeyfile (.ofRecords sampleKeyfileRecords) sampleArgon2id bytes
        sampleExport.passphrase = some (.ok (sampleExport.dataKey, sampleExport.chunkIdKey))) ∧
    ∀ bytes dataKey chunkIdKey,
      importKeyfile (.ofRecords sampleKeyfileRecords) sampleArgon2id bytes
        sampleExport.passphrase = some (.ok (dataKey, chunkIdKey)) →
      sampleExport.file (.ofRecords sampleKeyfileRecords) sampleArgon2id = .ok bytes := by
  have injective : Argon2id.InjectiveOn sampleArgon2id {sampleExport.passphrase} := by
    rintro first rfl second rfl _ _ _ _ _
    rfl
  have known : ∀ made ∈ ({sampleExport} : Set KeyfileExport),
      made.passphrase ∈ ({sampleExport.passphrase} : Set Bytes) := by
    rintro made rfl
    rfl
  obtain ⟨roundTrip, unforgeable, -⟩ :=
    keyfile_round_trips_and_is_unforgeable sampleKeyfileRecords_coherent.inverts
  obtain ⟨exported, -⟩ := unforgeable injective sample_sealedByExports known
  refine ⟨roundTrip sampleExport sampleKek _ (by decide) rfl, ?_⟩
  intro bytes dataKey chunkIdKey imported
  obtain ⟨made, rfl, -, -, -, file, -⟩ := exported bytes _ rfl dataKey chunkIdKey imported
  exact file

end Sample

end Busyncr
