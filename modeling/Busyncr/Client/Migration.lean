import Busyncr.Client.History
import Busyncr.Client.KeyRuns

/-!
Migration to a new machine: `export_key` on the old one, `import_key` on the
new one, and a restore there.
-/

namespace Busyncr.Client

open Std Store KeyFiles

/-- `load_raw_key`. -/
def loadRawKey (dir : StateDir) (name : KeyName) : Except EnrollError RawKey :=
  match dir (.live name) with
  | none => .error .io
  | some bytes =>
      match toArray? 32 bytes with
      | none => .error (.badDataKey (.live name) bytes.length)
      | some key => .ok key

/-- `load_data_key`, then `load_chunk_id_key`. -/
def loadKeys (dir : StateDir) : Except EnrollError KeyPair :=
  match loadRawKey dir .data with
  | .error error => .error error
  | .ok dataKey =>
      match loadRawKey dir .chunkId with
      | .error error => .error error
      | .ok chunkIdKey => .ok ⟨⟨dataKey⟩, ⟨chunkIdKey⟩⟩

inductive ExportError where
  | state (error : EnrollError)
  | outputExists
  | crypto (error : CryptoError)
deriving DecidableEq

/-- The new content of the output file of an `export_key`, which is not
written over a file that is there. -/
def exportKey (aead : Aead) (argon2id : Argon2id) (dir : StateDir) (output : Option Bytes)
    (passphrase : Bytes) (params : KdfParams) (salt : Salt) (nonce : Nonce) :
    Except ExportError Bytes :=
  match loadKeys dir with
  | .error error => .error (.state error)
  | .ok keys =>
      if output.isSome then .error .outputExists
      else
        match exportKeyfile aead argon2id keys.dataKey keys.chunkIdKey passphrase params salt
            nonce with
        | .error error => .error (.crypto error)
        | .ok file => .ok file

section Keys

variable {dir : StateDir} {keys : KeyPair}

theorem loadRawKey_eq_ok_iff {name : KeyName} {key : RawKey} :
    loadRawKey dir name = .ok key ↔ dir (.live name) = some key.toList := by
  rw [← loadOptional_eq_some, loadRawKey, loadOptional]
  cases dir (.live name) with
  | none => simp
  | some bytes =>
      simp only [Option.bind_some]
      cases toArray? 32 bytes <;> simp

theorem loadKeys_eq_ok_iff : loadKeys dir = .ok keys ↔
    dir (.live .data) = some keys.dataKey.raw.toList ∧
      dir (.live .chunkId) = some keys.chunkIdKey.raw.toList := by
  rw [← loadRawKey_eq_ok_iff, ← loadRawKey_eq_ok_iff, loadKeys]
  cases loadRawKey dir .data with
  | error error => simp
  | ok dataKey =>
      cases loadRawKey dir .chunkId with
      | error error => simp
      | ok chunkIdKey =>
          obtain ⟨⟨data⟩, ⟨chunk⟩⟩ := keys
          simp

variable {aead : Aead} {argon2id : Argon2id} {output : Option Bytes} {passphrase file : Bytes}
  {params : KdfParams} {salt : Salt} {nonce : Nonce}

/-- A keyfile that was exported opens to the keys of the machine. -/
theorem openKeyfile_of_exportKey (inverts : aead.Inverts) (enrolled : loadKeys dir = .ok keys)
    (exported : exportKey aead argon2id dir output passphrase params salt nonce = .ok file) :
    openKeyfile aead argon2id file passphrase = .ok (keys.dataKey, keys.chunkIdKey) := by
  simp only [exportKey, enrolled] at exported
  split at exported
  next => cases exported
  next =>
    split at exported
    next => cases exported
    next sealedFile =>
      cases exported
      have made : KeyfileExport.file aead argon2id
          ⟨keys.dataKey, keys.chunkIdKey, passphrase, params, salt, nonce⟩ = .ok file := sealedFile
      have imported := (importKeyfile_file inverts made).2
      simp only at imported
      simp [openKeyfile, imported]

/-- With a slot free for the keys it replaces, an import succeeds. -/
theorem importKey_succeeds {opened : DataKey × ChunkIdKey}
    (opens : openKeyfile aead argon2id file passphrase = .ok opened)
    (free : (freeSlot dir).isSome) :
    ∃ outcome migrated, importKey aead argon2id dir file passphrase = (.ok outcome, migrated) := by
  simp only [importKey, opens, importPlan]
  split
  next => exact ⟨_, _, rfl⟩
  next =>
    split
    next =>
      obtain ⟨slot, found⟩ := Option.isSome_iff_exists.mp free
      rw [found]
      exact ⟨_, _, rfl⟩
    next => exact ⟨_, _, rfl⟩

theorem loadKeys_importKey {opened : DataKey × ChunkIdKey} {outcome : ImportOutcome}
    {migrated : StateDir} (opens : openKeyfile aead argon2id file passphrase = .ok opened)
    (imported : importKey aead argon2id dir file passphrase = (.ok outcome, migrated)) :
    loadKeys migrated = .ok ⟨opened.1, opened.2⟩ ∧
      importKey aead argon2id migrated file passphrase = (.ok .alreadyCurrent, migrated) := by
  obtain ⟨found, again, data, chunk⟩ := importKey_ok (congrArg Prod.fst imported)
  rw [opens] at again
  cases again
  rw [imported] at data chunk
  exact ⟨loadKeys_eq_ok_iff.mpr ⟨data, chunk⟩, importKey_current opens data chunk⟩

end Keys

section Migration

variable {Threshold : Type} {fs : FileSystem} {libraries : Libraries} {argon2id : Argon2id}
  {keys : KeyPair} {content : Set Bytes} {reader : Serving}

/-- Whatever keys a new machine has, importing the keyfile of the old one
installs its pair, a second import changes nothing, and every backup of the
set that is still listed restores on the new machine. -/
theorem migrated_machine_restores (succeeds : fs.Succeeds)
    (aeadInverts : libraries.aead.Inverts) (zstdInverts : libraries.compressors.Inverts)
    (injective : Set.InjOn (idOf libraries keys) content)
    {oldMachine newMachine : StateDir} {output : Option Bytes} {passphrase file : Bytes}
    {params : KdfParams} {salt : Salt} {nonce : Nonce}
    (enrolled : loadKeys oldMachine = .ok keys)
    (exported : exportKey libraries.aead argon2id oldMachine output passphrase params salt nonce =
      .ok file)
    (free : (freeSlot newMachine).isSome)
    {earlier later : List (HistoryEvent Threshold)} {serving : Serving}
    {tests : LengthTests Threshold} {nonces : Nat → Nonce} {request : BackupRequest Threshold}
    {final : Disk} {target : Target}
    (sound : ∀ event ∈ earlier ++ .backup serving tests nonces request :: later,
      event.Sound libraries keys content)
    (few : ((earlier ++ .backup serving tests nonces request :: later).map
      HistoryEvent.references).sum < 2 ^ 64)
    (fresh : ∀ event ∈ later, ¬ event.Ships request.snapshotId)
    (executed : Transition.run (historyStep libraries keys) .empty
      (earlier ++ .backup serving tests nonces request :: later) = some final)
    (listed : request.snapshotId ∈ listSnapshots final.tables)
    (admitted : Daemon.authenticate reader.auth reader.fingerprint = .ok ())
    (emptyTarget : target = .absent ∨ target = .dir ∅) :
    ∃ outcome migrated,
      importKey libraries.aead argon2id newMachine file passphrase = (.ok outcome, migrated) ∧
      importKey libraries.aead argon2id migrated file passphrase =
        (.ok .alreadyCurrent, migrated) ∧
      ∃ migratedKeys specs report tree, loadKeys migrated = .ok migratedKeys ∧
        collectFiles request.roots = .ok specs ∧
        runRestore fs libraries migratedKeys (reader.restorePeer libraries.blake3) final
          request.snapshotId target = .ok (report, tree) ∧ RestoredAs tree specs := by
  have opens := openKeyfile_of_exportKey aeadInverts enrolled exported
  obtain ⟨outcome, migrated, imported⟩ := importKey_succeeds opens free
  obtain ⟨loaded, again⟩ := loadKeys_importKey opens imported
  obtain ⟨wellFormed, tiles, covers⟩ := sound _ (List.mem_append_right _ List.mem_cons_self)
  obtain ⟨before, after, specs, entries, blob, backedUp, contents, represents, closed,
    sealedContents, live⟩ := exists_live_of_history injective sound few fresh executed listed
  obtain ⟨report, tree, completed, restored⟩ := exists_restored_of_live succeeds aeadInverts
    zstdInverts admitted wellFormed tiles covers backedUp represents closed sealedContents live
    emptyTarget
  exact ⟨outcome, migrated, imported, again, keys, specs, report, tree, loaded,
    backedUp.collected, completed, restored⟩

end Migration

section Sample

/-- The cipher on the blobs of the sample snapshot and on the sample
keyfile. -/
def migrationRecords : List AeadRecord := sampleRecords ++ sampleKeyfileRecords

def migrationLibraries : Libraries := { sampleLibraries with aead := .ofRecords migrationRecords }

theorem migrationRecords_coherent : Coherent migrationRecords := by decide +kernel

theorem migrationCompressors_invert : migrationLibraries.compressors.Inverts :=
  sampleCompressors_invert

/-- The machine the sample snapshot comes from. -/
def sampleMachine : StateDir
  | .live .data => some (List.replicate 32 1)
  | .live .chunkId => some (List.replicate 32 0)
  | _ => none

theorem sampleMachine_enrolled : loadKeys sampleMachine = .ok sampleKeys :=
  loadKeys_eq_ok_iff.mpr ⟨by decide, by decide⟩

theorem enrolled_machine_restores_after_migration :
    ∃ file final, exportKey migrationLibraries.aead sampleArgon2id sampleMachine none
        sampleExport.passphrase sampleExport.params sampleExport.salt sampleExport.nonce =
          .ok file ∧
      Transition.run (historyStep migrationLibraries sampleKeys) .empty sampleHistory =
        some final ∧
      ∃ outcome migrated, importKey migrationLibraries.aead sampleArgon2id enrolledDir file
          sampleExport.passphrase = (.ok outcome, migrated) ∧
        importKey migrationLibraries.aead sampleArgon2id migrated file sampleExport.passphrase =
          (.ok .alreadyCurrent, migrated) ∧
        ∃ migratedKeys specs report tree, loadKeys migrated = .ok migratedKeys ∧
          collectFiles sampleRequest.roots = .ok specs ∧
          runRestore sampleVolume migrationLibraries migratedKeys
            (sampleServing.restorePeer migrationLibraries.blake3) final sampleRequest.snapshotId
              .absent = .ok (report, tree) ∧ RestoredAs tree specs := by
  have enabled : ((Transition.run (historyStep migrationLibraries sampleKeys) .empty
      sampleHistory).any fun final =>
        decide (sampleRequest.snapshotId ∈ listSnapshots final.tables)) = true := by
    decide +kernel
  obtain ⟨final, executed, listed⟩ := (Option.any_eq_true _ _).mp enabled
  have written : (exportKey migrationLibraries.aead sampleArgon2id sampleMachine none
      sampleExport.passphrase sampleExport.params sampleExport.salt
      sampleExport.nonce).isOk = true := by
    decide +kernel
  cases exported : exportKey migrationLibraries.aead sampleArgon2id sampleMachine none
      sampleExport.passphrase sampleExport.params sampleExport.salt sampleExport.nonce with
  | error error =>
      rw [exported] at written
      cases written
  | ok file =>
      refine ⟨file, final, rfl, executed, ?_⟩
      exact migrated_machine_restores sampleVolume_succeeds migrationRecords_coherent.inverts
        migrationCompressors_invert sampleContent_injective
        sampleMachine_enrolled exported (by decide +kernel) (sampleHistory_sound _ _)
        (by decide +kernel) sampleLater_fresh executed (of_decide_eq_true listed) rfl (.inl rfl)

end Sample

end Busyncr.Client
