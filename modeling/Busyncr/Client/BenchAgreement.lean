import Busyncr.Client.LedgerRuns
import Busyncr.Core.PolicyBench

/-!
The policy simulator against the real first backup: on the distinct chunks of
a tree, in any order, it finds the counters and the upload volume of a backup
of that tree to an empty daemon.
-/

namespace Busyncr.Client

open FirstOccurrence

section Agreement

variable {Threshold : Type} {libraries : Libraries} {tests : LengthTests Threshold}
  {keys : KeyPair} {nonces : Nat → Nonce} {peer : BackupPeer}

theorem lacking_of_unheld {terms : Terms} (unheld : ∀ id, terms.held id = false)
    (chunks : List Bytes) : terms.lacking chunks = chunks := by
  simp [Terms.lacking, unheld]

/-- Distinct plaintexts are what is left of the chunks when the first of every
keyed ID is kept. -/
theorem perm_firsts {chunks unique : List Bytes} {idOf : Bytes → ChunkId}
    (injective : Set.InjOn idOf {data | data ∈ chunks}) (distinct : unique.Nodup)
    (members : ∀ data, data ∈ unique ↔ data ∈ chunks) : (firsts idOf chunks).Perm unique := by
  refine (List.perm_ext_iff_of_nodup ?_ distinct).mpr fun data => ?_
  · exact (nodup_map_firsts chunks).of_map _
  · rw [mem_firsts_of_injOn injective, members]

theorem cuts_unique {chunker : Bytes → Option (List Bytes)} {specs : List FileSpec}
    {left right : List (List Bytes)}
    (cut : List.Forall₂ (fun spec chunks => chunker spec.file.content = some chunks) specs left)
    (cutToo : List.Forall₂ (fun spec chunks => chunker spec.file.content = some chunks) specs
      right) : left = right := by
  induction cut generalizing right with
  | nil =>
      cases cutToo
      rfl
  | cons head _ inductionHypothesis =>
      cases cutToo with
      | cons headToo tailToo =>
          rw [Option.some.inj (head.symm.trans headToo), inductionHypothesis tailToo]

/-- The simulation of a policy over the distinct chunks of a tree, in any
order, predicts the first backup of the tree under that policy. -/
theorem simulation_predicts_first_backup (lengthens : libraries.aead.Lengthens)
    (daemon : LoneDaemon peer) {state final : peer.State} {request : BackupRequest Threshold}
    {report : BackupReport} {constants : ThresholdConstants Threshold} {kind : PolicyKind}
    (configured : request.compression = kind.config constants)
    (noSnapshots : (peer.listSnapshots state).1 = .ok [])
    (noChunks : ∀ id, daemon.holds state id = false)
    (succeeds : runBackup libraries tests keys nonces peer state request = .ok (report, final))
    {specs : List FileSpec} {cuts : List (List Bytes)} {unique : List Bytes}
    (collected : collectFiles request.roots = .ok specs)
    (cut : List.Forall₂ (fun spec chunks => request.chunker spec.file.content = some chunks)
      specs cuts)
    (injective : Set.InjOn (idOf libraries keys) {data | data ∈ cuts.flatten})
    (distinct : unique.Nodup) (members : ∀ data, data ∈ unique ↔ data ∈ cuts.flatten) :
    let stats := simulatePolicy constants libraries.compressors tests unique kind .initialFull
    stats.chunkCount = report.chunksUploaded ∧ stats.bytesIn = report.compression.bytesIn ∧
      stats.bytesOut = report.compression.bytesOut ∧ stats.rawChunks = report.compression.raw ∧
      stats.zstd3Chunks = report.compression.zstd3 ∧
      stats.escalatedChunks = report.compression.escalated ∧
      stats.escalationAttempts = report.compression.escalationAttempts ∧
      stats.storedBytes = report.uploadBytes := by
  have watched : runBackupWithProgress libraries tests keys nonces peer state request =
      ((runBackupWithProgress libraries tests keys nonces peer state request).1,
        .ok (report, final)) :=
    Prod.ext rfl ((runBackupWithProgress_snd ..).trans succeeds)
  obtain ⟨wire, recorded⟩ := exists_recording watched .empty
  obtain ⟨existing, found, chunked, replied, walked, cutToo, settled⟩ :=
    runBackupWithProgress_settles lengthens daemon recorded
  obtain rfl : existing = [] := Except.ok.inj (replied.symm.trans noSnapshots)
  obtain rfl : found = specs := Except.ok.inj (walked.symm.trans collected)
  obtain rfl : chunked = cuts := cuts_unique cutToo cut
  have sent : ((termsOf (contextOf libraries tests keys nonces request [])
      (daemon.holds state)).lacking (firsts (termsOf (contextOf libraries tests keys nonces
        request []) (daemon.holds state)).idOf chunked.flatten)).Perm unique := by
    rw [lacking_of_unheld noChunks]
    exact perm_firsts injective distinct members
  have counters : report.compression = countChunks libraries.compressors tests .initialFull
      (kind.config constants) .zero unique := by
    rw [settled.compression, ← configured]
    exact countChunks_perm _ _ _ _ _ sent
  have stored : report.uploadBytes = (simulatePolicy constants libraries.compressors tests unique
      kind .initialFull).storedBytes := by
    rw [settled.shows.uploadBytes, simulatePolicy_storedBytes, ← configured]
    exact congrArg UInt64.ofNat (sent.map _).sum_eq
  have uploaded : report.chunksUploaded = UInt64.ofNat unique.length := by
    rw [settled.shows.chunksUploaded]
    exact congrArg UInt64.ofNat sent.length_eq
  intro stats
  refine ⟨?_, ?_, ?_, ?_, ?_, ?_, ?_, stored.symm⟩
  · rw [uploaded]
    exact total_countChunks ..
  all_goals
    rw [counters]
    rfl

end Agreement

theorem sampleRequest_cut : ∃ specs, collectFiles sampleRequest.roots = .ok specs ∧
    List.Forall₂ (fun spec chunks => sampleRequest.chunker spec.file.content = some chunks) specs
      [[[7]], [[7]], [[8]]] := by
  have found : (collectFiles sampleRequest.roots).toOption.map (List.map fun spec =>
      sampleRequest.chunker spec.file.content) = some [some [[7]], some [[7]], some [[8]]] := by
    decide +kernel
  cases collected : collectFiles sampleRequest.roots with
  | error error =>
      rw [collected] at found
      cases found
  | ok specs =>
      rw [collected] at found
      have cut : List.Forall₂ (· = ·)
          (specs.map fun spec => sampleRequest.chunker spec.file.content)
          ([[[7]], [[7]], [[8]]].map some) :=
        List.forall₂_eq_eq_eq ▸ Option.some.inj found
      rw [List.forall₂_map_left_iff, List.forall₂_map_right_iff] at cut
      exact ⟨specs, rfl, cut⟩

theorem sampleContent_unkeyed :
    Set.InjOn (ChunkId.of sampleLibraries.blake3) sampleContent := by
  rintro left (rfl | rfl) right (rfl | rfl) same
  all_goals first | rfl | exact absurd same (by decide)

/-- The sample folders simulated and backed up to an empty daemon, the two
distinct chunks of three files collected as the benchmark collects them. -/
theorem sample_simulation_predicts_backup :
    ∃ report final, runBackup sampleLibraries sampleTests sampleKeys sampleNonces
        (sampleServing.backupPeer sampleLibraries.blake3) Store.Disk.empty sampleRequest =
          .ok (report, final) ∧
      (simulatePolicy (⟨(), (), (), (), ()⟩ : ThresholdConstants Unit) sampleLibraries.compressors
        sampleTests (uniqueChunks sampleLibraries.blake3 [[7], [7], [8]]) .zstd3
          .initialFull).storedBytes = report.uploadBytes := by
  have checked : (runBackup sampleLibraries sampleTests sampleKeys sampleNonces
      (sampleServing.backupPeer sampleLibraries.blake3) Store.Disk.empty
      sampleRequest).isOk = true := by
    decide +kernel
  cases backedUp : runBackup sampleLibraries sampleTests sampleKeys sampleNonces
      (sampleServing.backupPeer sampleLibraries.blake3) Store.Disk.empty sampleRequest with
  | error error =>
      rw [backedUp] at checked
      cases checked
  | ok result =>
      obtain ⟨report, final⟩ := result
      obtain ⟨specs, collected, cut⟩ := sampleRequest_cut
      have inContent : {data | data ∈ [[[7]], [[7]], [[8]]].flatten} ⊆ sampleContent := by
        intro data listed
        simpa [sampleContent] using listed
      have keyed := sampleContent_injective.mono inContent
      obtain ⟨distinct, members⟩ := uniqueChunks_distinct
        (sampleContent_unkeyed.mono inContent) (.refl _)
      have noChunks (id : ChunkId) :
          (sampleServing.loneDaemon sampleLibraries.blake3).holds Store.Disk.empty id = false := by
        simp [Serving.loneDaemon, Store.hasChunk, Store.chunkEntry, Store.Disk.empty,
          Store.Tables.empty]
      have predicted := simulation_predicts_first_backup
        sampleRecords_coherent.inverts.lengthens
        (sampleServing.loneDaemon sampleLibraries.blake3)
        (show sampleRequest.compression = PolicyKind.zstd3.config ⟨(), (), (), (), ()⟩ from rfl)
        (by decide +kernel) noChunks backedUp collected cut keyed distinct members
      obtain ⟨-, -, -, -, -, -, -, stored⟩ := predicted
      exact ⟨report, final, rfl, stored⟩

end Busyncr.Client
