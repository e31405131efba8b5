import Busyncr.Client.BackupStore
import Busyncr.Client.Progress
import Busyncr.Lib.FirstOccurrence

/-!
The transfer ledger of a backup.

A tally remembers the chunks a run has taken and those it has flushed; the
ledger is what the numbers of the report should be, as unbounded numbers.
The pipeline keeps its report equal to the ledger of a tally that only grows,
wherever the batch boundaries fall.
-/

namespace Busyncr.Client

open FirstOccurrence

/-- What decides a ledger: the ID of every chunk, the IDs the daemon held at
the start, and the payload length a chunk is stored at. -/
structure Terms where
  idOf : Bytes → ChunkId
  held : ChunkId → Bool
  payload : Bytes → Nat

/-- The chunks taken and flushed so far; flushed are first occurrences, in
order. -/
structure Tally (idOf : Bytes → ChunkId) where
  files : Nat
  sourceBytes : Nat
  taken : List Bytes
  flushed : List Bytes
  within : flushed <+: firsts idOf taken

/-- The seven counters progress reports on. -/
structure Ledger where
  files : Nat
  sourceBytes : Nat
  chunksTotal : Nat
  chunksUnique : Nat
  chunksUploaded : Nat
  chunksDeduped : Nat
  uploadBytes : Nat

instance : LE Ledger where
  le earlier later :=
    earlier.files ≤ later.files ∧ earlier.sourceBytes ≤ later.sourceBytes ∧
      earlier.chunksTotal ≤ later.chunksTotal ∧ earlier.chunksUnique ≤ later.chunksUnique ∧
      earlier.chunksUploaded ≤ later.chunksUploaded ∧
      earlier.chunksDeduped ≤ later.chunksDeduped ∧ earlier.uploadBytes ≤ later.uploadBytes

/-- Every chunk uploaded or deduplicated is a distinct one, and every distinct
one a reference. -/
def Ledger.Balanced (ledger : Ledger) : Prop :=
  ledger.chunksUploaded + ledger.chunksDeduped ≤ ledger.chunksUnique ∧
    ledger.chunksUnique ≤ ledger.chunksTotal

/-- The counters stay below the range of the report's. -/
def Ledger.Fits (ledger : Ledger) : Prop :=
  ledger.files < 2 ^ 64 ∧ ledger.sourceBytes < 2 ^ 64 ∧ ledger.chunksTotal < 2 ^ 64 ∧
    ledger.uploadBytes < 2 ^ 64

theorem Ledger.Fits.of_le {small large : Ledger} (fits : large.Fits) (le : small ≤ large) :
    small.Fits :=
  ⟨Nat.lt_of_le_of_lt le.1 fits.1, Nat.lt_of_le_of_lt le.2.1 fits.2.1,
    Nat.lt_of_le_of_lt le.2.2.1 fits.2.2.1, Nat.lt_of_le_of_lt le.2.2.2.2.2.2 fits.2.2.2⟩

section Tallies

variable (terms : Terms)

/-- The chunks the daemon did not hold. -/
def Terms.lacking (chunks : List Bytes) : List Bytes :=
  chunks.filter fun data => !terms.held (terms.idOf data)

/-- The chunks the daemon held already. -/
def Terms.owned (chunks : List Bytes) : List Bytes :=
  chunks.filter fun data => terms.held (terms.idOf data)

/-- The length of a chunk's blob: the codec byte, the payload, nonce and
tag. -/
def Terms.blobLen (data : Bytes) : Nat := 1 + terms.payload data + blobOverhead

def Terms.ledger (tally : Tally terms.idOf) : Ledger where
  files := tally.files
  sourceBytes := tally.sourceBytes
  chunksTotal := tally.taken.length
  chunksUnique := (firsts terms.idOf tally.taken).length
  chunksUploaded := (terms.lacking tally.flushed).length
  chunksDeduped := (terms.owned tally.flushed).length
  uploadBytes := ((terms.lacking tally.flushed).map terms.blobLen).sum

variable {terms}

/-- A later tally of the same run. -/
structure Tally.Precedes {idOf : Bytes → ChunkId} (earlier later : Tally idOf) : Prop where
  files : earlier.files ≤ later.files
  sourceBytes : earlier.sourceBytes ≤ later.sourceBytes
  taken : earlier.taken <+: later.taken
  flushed : earlier.flushed <+: later.flushed

theorem Tally.Precedes.refl {idOf : Bytes → ChunkId} (tally : Tally idOf) : tally.Precedes tally :=
  ⟨Nat.le_refl _, Nat.le_refl _, List.prefix_rfl, List.prefix_rfl⟩

theorem Tally.Precedes.trans {idOf : Bytes → ChunkId} {first second third : Tally idOf}
    (before : first.Precedes second) (after : second.Precedes third) : first.Precedes third :=
  ⟨Nat.le_trans before.files after.files, Nat.le_trans before.sourceBytes after.sourceBytes,
    before.taken.trans after.taken, before.flushed.trans after.flushed⟩

/-- One more chunk taken. -/
def Tally.take {idOf : Bytes → ChunkId} (tally : Tally idOf) (data : Bytes) : Tally idOf :=
  { tally with
    taken := tally.taken ++ [data]
    within := tally.within.trans (firsts_prefix_append tally.taken [data]) }

/-- The buffer flushed: nothing taken is waiting. -/
def Tally.flush {idOf : Bytes → ChunkId} (tally : Tally idOf) : Tally idOf :=
  { tally with
    flushed := firsts idOf tally.taken
    within := List.prefix_rfl }

/-- A file of this size finished. -/
def Tally.finish {idOf : Bytes → ChunkId} (tally : Tally idOf) (size : Nat) : Tally idOf :=
  { tally with
    files := tally.files + 1
    sourceBytes := tally.sourceBytes + size }

theorem Tally.precedes_take {idOf : Bytes → ChunkId} (tally : Tally idOf) (data : Bytes) :
    tally.Precedes (tally.take data) :=
  ⟨Nat.le_refl _, Nat.le_refl _, List.prefix_append .., List.prefix_rfl⟩

theorem Tally.precedes_flush {idOf : Bytes → ChunkId} (tally : Tally idOf) :
    tally.Precedes tally.flush :=
  ⟨Nat.le_refl _, Nat.le_refl _, List.prefix_rfl, tally.within⟩

theorem Tally.precedes_finish {idOf : Bytes → ChunkId} (tally : Tally idOf) (size : Nat) :
    tally.Precedes (tally.finish size) :=
  ⟨Nat.le_add_right .., Nat.le_add_right .., List.prefix_rfl, List.prefix_rfl⟩

theorem lacking_append (terms : Terms) (first second : List Bytes) :
    terms.lacking (first ++ second) = terms.lacking first ++ terms.lacking second :=
  List.filter_append ..

section Cons

variable {data : Bytes} (rest : List Bytes)

theorem lacking_cons_of_unheld (unheld : terms.held (terms.idOf data) = false) :
    terms.lacking (data :: rest) = data :: terms.lacking rest := by
  simp [Terms.lacking, unheld]

theorem lacking_cons_of_held (held : terms.held (terms.idOf data) = true) :
    terms.lacking (data :: rest) = terms.lacking rest := by
  simp [Terms.lacking, held]

theorem owned_cons_of_unheld (unheld : terms.held (terms.idOf data) = false) :
    terms.owned (data :: rest) = terms.owned rest := by
  simp [Terms.owned, unheld]

theorem owned_cons_of_held (held : terms.held (terms.idOf data) = true) :
    terms.owned (data :: rest) = data :: terms.owned rest := by
  simp [Terms.owned, held]

end Cons

theorem length_lacking_add_owned (chunks : List Bytes) :
    (terms.lacking chunks).length + (terms.owned chunks).length = chunks.length := by
  have split := List.length_eq_length_filter_add (l := chunks)
    fun data => terms.held (terms.idOf data)
  simp only [Terms.lacking, Terms.owned]
  omega

theorem balanced_ledger (tally : Tally terms.idOf) : (terms.ledger tally).Balanced := by
  constructor
  · calc (terms.lacking tally.flushed).length + (terms.owned tally.flushed).length
        = tally.flushed.length := length_lacking_add_owned tally.flushed
      _ ≤ (firsts terms.idOf tally.taken).length := tally.within.length_le
  · exact (firsts_sublist tally.taken).length_le

/-- A ledger never goes down along a run. -/
theorem ledger_le_of_precedes {earlier later : Tally terms.idOf}
    (precedes : earlier.Precedes later) : terms.ledger earlier ≤ terms.ledger later := by
  obtain ⟨more, taken⟩ := precedes.taken
  have unique : firsts terms.idOf earlier.taken <+: firsts terms.idOf later.taken := by
    rw [← taken]
    exact firsts_prefix_append earlier.taken more
  have uploaded : terms.lacking earlier.flushed <+: terms.lacking later.flushed :=
    precedes.flushed.filter _
  have owned : terms.owned earlier.flushed <+: terms.owned later.flushed :=
    precedes.flushed.filter _
  refine ⟨precedes.files, precedes.sourceBytes, precedes.taken.length_le, unique.length_le,
    uploaded.length_le, owned.length_le, ?_⟩
  exact (uploaded.map terms.blobLen).sublist.sum_le_sum fun _ _ => Nat.zero_le _

end Tallies

/-- The report's counters, as the wrapping numbers they are. -/
structure BackupReport.Shows (report : BackupReport) (ledger : Ledger) : Prop where
  files : report.files = UInt64.ofNat ledger.files
  sourceBytes : report.sourceBytes = UInt64.ofNat ledger.sourceBytes
  chunksTotal : report.chunksTotal = UInt64.ofNat ledger.chunksTotal
  chunksUnique : report.chunksUnique = UInt64.ofNat ledger.chunksUnique
  chunksUploaded : report.chunksUploaded = UInt64.ofNat ledger.chunksUploaded
  chunksDeduped : report.chunksDeduped = UInt64.ofNat ledger.chunksDeduped
  uploadBytes : report.uploadBytes = UInt64.ofNat ledger.uploadBytes

/-- No counter of the first report exceeds its counterpart. -/
structure BackupReport.Below (earlier later : BackupReport) : Prop where
  files : earlier.files ≤ later.files
  sourceBytes : earlier.sourceBytes ≤ later.sourceBytes
  chunksTotal : earlier.chunksTotal ≤ later.chunksTotal
  chunksUnique : earlier.chunksUnique ≤ later.chunksUnique
  chunksUploaded : earlier.chunksUploaded ≤ later.chunksUploaded
  chunksDeduped : earlier.chunksDeduped ≤ later.chunksDeduped
  uploadBytes : earlier.uploadBytes ≤ later.uploadBytes

theorem ofNat_le_ofNat {small large : Nat} (le : small ≤ large) (fits : large < 2 ^ 64) :
    UInt64.ofNat small ≤ UInt64.ofNat large := by
  rw [UInt64.le_iff_toNat_le, UInt64.toNat_ofNat_of_lt' (Nat.lt_of_le_of_lt le fits),
    UInt64.toNat_ofNat_of_lt' fits]
  exact le

theorem BackupReport.Shows.below {earlier later : BackupReport} {small large : Ledger}
    (shows : earlier.Shows small) (showsLater : later.Shows large) (le : small ≤ large)
    (fits : large.Fits) (balanced : large.Balanced) : earlier.Below later := by
  obtain ⟨files, sourceBytes, chunksTotal, chunksUnique, chunksUploaded, chunksDeduped,
    uploadBytes⟩ := le
  obtain ⟨filesFit, sourceFits, totalFits, uploadFits⟩ := fits
  obtain ⟨shipped, unique⟩ := balanced
  constructor
  · rw [shows.files, showsLater.files]
    exact ofNat_le_ofNat files filesFit
  · rw [shows.sourceBytes, showsLater.sourceBytes]
    exact ofNat_le_ofNat sourceBytes sourceFits
  · rw [shows.chunksTotal, showsLater.chunksTotal]
    exact ofNat_le_ofNat chunksTotal totalFits
  · rw [shows.chunksUnique, showsLater.chunksUnique]
    exact ofNat_le_ofNat chunksUnique (by omega)
  · rw [shows.chunksUploaded, showsLater.chunksUploaded]
    exact ofNat_le_ofNat chunksUploaded (by omega)
  · rw [shows.chunksDeduped, showsLater.chunksDeduped]
    exact ofNat_le_ofNat chunksDeduped (by omega)
  · rw [shows.uploadBytes, showsLater.uploadBytes]
    exact ofNat_le_ofNat uploadBytes uploadFits

theorem BackupReport.Shows.balanced {report : BackupReport} {ledger : Ledger}
    (shows : report.Shows ledger) (fits : ledger.Fits) (balanced : ledger.Balanced) :
    report.chunksUploaded + report.chunksDeduped ≤ report.chunksUnique ∧
      report.chunksUnique ≤ report.chunksTotal := by
  obtain ⟨shipped, unique⟩ := balanced
  have total := fits.2.2.1
  constructor
  · rw [shows.chunksUploaded, shows.chunksDeduped, shows.chunksUnique, ← UInt64.ofNat_add]
    exact ofNat_le_ofNat shipped (by omega)
  · rw [shows.chunksUnique, shows.chunksTotal]
    exact ofNat_le_ofNat unique total

/-- The report after a batch was flushed. -/
def BackupReport.flushing (terms : Terms) (report : BackupReport) (chunks : List Bytes) :
    BackupReport :=
  { report with
    chunksUploaded := report.chunksUploaded + UInt64.ofNat (terms.lacking chunks).length
    chunksDeduped := report.chunksDeduped + UInt64.ofNat (terms.owned chunks).length
    uploadBytes := report.uploadBytes +
      UInt64.ofNat ((terms.lacking chunks).map terms.blobLen).sum }

/-- One chunk uploaded, then the others flushed. -/
theorem flushing_cons_of_unheld {terms : Terms} {data : Bytes}
    (unheld : terms.held (terms.idOf data) = false) (report : BackupReport)
    (rest : List Bytes) :
    report.flushing terms (data :: rest) =
      { report with
        uploadBytes := report.uploadBytes + UInt64.ofNat (terms.blobLen data)
        chunksUploaded := report.chunksUploaded + 1 }.flushing terms rest := by
  simp only [BackupReport.flushing, lacking_cons_of_unheld rest unheld,
    owned_cons_of_unheld rest unheld, List.length_cons, List.map_cons, List.sum_cons,
    UInt64.ofNat_add, UInt64.ofNat_one, BackupReport.mk.injEq, true_and, and_true]
  grind

/-- One chunk found on the daemon, then the others flushed. -/
theorem flushing_cons_of_held {terms : Terms} {data : Bytes}
    (held : terms.held (terms.idOf data) = true) (report : BackupReport) (rest : List Bytes) :
    report.flushing terms (data :: rest) =
      { report with chunksDeduped := report.chunksDeduped + 1 }.flushing terms rest := by
  simp only [BackupReport.flushing, lacking_cons_of_held rest held, owned_cons_of_held rest held,
    List.length_cons, UInt64.ofNat_add, UInt64.ofNat_one, BackupReport.mk.injEq, true_and,
    and_true]
  grind

section Reports

variable {terms : Terms} {tally : Tally terms.idOf} {report : BackupReport}

theorem shows_start (snapshotId : Ulid) :
    (BackupReport.start snapshotId).Shows (terms.ledger ⟨0, 0, [], [], List.prefix_rfl⟩) :=
  ⟨rfl, rfl, rfl, rfl, rfl, rfl, rfl⟩

theorem BackupReport.Shows.take_seen (shows : report.Shows (terms.ledger tally)) {data : Bytes}
    (seen : terms.idOf data ∈ tally.taken.map terms.idOf) :
    { report with chunksTotal := report.chunksTotal + 1 }.Shows
      (terms.ledger (tally.take data)) := by
  refine ⟨shows.files, shows.sourceBytes, ?_, ?_, shows.chunksUploaded, shows.chunksDeduped,
    shows.uploadBytes⟩
  · simp [shows.chunksTotal, Terms.ledger, Tally.take]
  · simp only [shows.chunksUnique, Terms.ledger, Tally.take, firsts_concat_of_mem seen]

theorem BackupReport.Shows.take_fresh (shows : report.Shows (terms.ledger tally)) {data : Bytes}
    (fresh : terms.idOf data ∉ tally.taken.map terms.idOf) :
    { report with
      chunksTotal := report.chunksTotal + 1
      chunksUnique := report.chunksUnique + 1 }.Shows (terms.ledger (tally.take data)) := by
  refine ⟨shows.files, shows.sourceBytes, ?_, ?_, shows.chunksUploaded, shows.chunksDeduped,
    shows.uploadBytes⟩
  · simp [shows.chunksTotal, Terms.ledger, Tally.take]
  · simp [shows.chunksUnique, Terms.ledger, Tally.take, firsts_concat_of_not_mem fresh]

theorem BackupReport.Shows.flush (shows : report.Shows (terms.ledger tally))
    {waiting : List Bytes} (buffer : firsts terms.idOf tally.taken = tally.flushed ++ waiting) :
    (report.flushing terms waiting).Shows (terms.ledger tally.flush) := by
  refine ⟨shows.files, shows.sourceBytes, shows.chunksTotal, shows.chunksUnique, ?_, ?_, ?_⟩
  · simp [flushing, shows.chunksUploaded, Terms.ledger, Tally.flush, buffer, Terms.lacking]
  · simp [flushing, shows.chunksDeduped, Terms.ledger, Tally.flush, buffer, Terms.owned]
  · simp [flushing, shows.uploadBytes, Terms.ledger, Tally.flush, buffer, Terms.lacking]

theorem BackupReport.Shows.finish (shows : report.Shows (terms.ledger tally)) (size : Nat) :
    { report with
      files := report.files + 1
      sourceBytes := report.sourceBytes + UInt64.ofNat size }.Shows
        (terms.ledger (tally.finish size)) := by
  refine ⟨?_, ?_, shows.chunksTotal, shows.chunksUnique, shows.chunksUploaded,
    shows.chunksDeduped, shows.uploadBytes⟩
  · simp [shows.files, Terms.ledger, Tally.finish]
  · simp [shows.sourceBytes, Terms.ledger, Tally.finish]

end Reports

/-- A daemon whose chunks change only by the uploads it gets, and that answers
`HasChunks` by the chunks it holds; its reply may name other IDs too. -/
structure LoneDaemon (peer : BackupPeer) where
  holds : peer.State → ChunkId → Bool
  listSnapshots : ∀ state, holds (peer.listSnapshots state).2 = holds state
  hasChunks : ∀ state ids, holds (peer.hasChunks state ids).2 = holds state
  missing : ∀ {state ids wire}, (peer.hasChunks state ids).1 = .ok wire →
    ∀ id : ChunkId, id.asBytes ∈ ids → (id.asBytes ∈ wire ↔ holds state id = false)
  uploadChunks : ∀ {state blobs id}, (∀ blob ∈ blobs, blob.chunkId ≠ id.asBytes) →
    holds (peer.uploadChunks state blobs).2 id = holds state id

section Served

theorem asBytes_of_parseChunkId {bytes : Bytes} {id : ChunkId}
    (parsed : Daemon.parseChunkId bytes = .ok id) : id.asBytes = bytes := by
  unfold Daemon.parseChunkId at parsed
  split at parsed
  next read =>
    cases parsed
    exact ChunkId.asBytes_of_fromSlice? read
  next => cases parsed

theorem asBytes_of_parseChunkIds {chunkIds : List Bytes} {ids : List ChunkId}
    (parsed : Daemon.parseChunkIds chunkIds = .ok ids) : chunkIds = ids.map ChunkId.asBytes := by
  induction chunkIds generalizing ids with
  | nil =>
      cases parsed
      rfl
  | cons raw rest inductionHypothesis =>
      simp only [Daemon.parseChunkIds] at parsed
      split at parsed
      next => cases parsed
      next id parsedHead =>
        split at parsed
        next => cases parsed
        next others parsedRest =>
          cases parsed
          rw [List.map_cons, asBytes_of_parseChunkId parsedHead,
            ← inductionHypothesis parsedRest]

theorem hasChunk_putChunk {blake3 : Blake3} {disk : Store.Disk} {stored id : ChunkId}
    {data : Bytes} (other : stored ≠ id) :
    Store.hasChunk (Store.putChunk blake3 disk stored data).2.tables id =
      Store.hasChunk disk.tables id := by
  unfold Store.putChunk
  split
  next => rfl
  next => simp [Store.hasChunk, Store.indexChunk, Store.chunkEntry_insert, other]

theorem hasChunk_uploadChunks {blake3 : Blake3} {id : ChunkId} {blobs : List Daemon.ChunkBlob}
    (others : ∀ blob ∈ blobs, blob.chunkId ≠ id.asBytes) {disk : Store.Disk}
    {counted : Daemon.UploadChunksResponse} :
    Store.hasChunk (Daemon.uploadChunks blake3 disk counted blobs).2.tables id =
      Store.hasChunk disk.tables id := by
  induction blobs generalizing disk counted with
  | nil => rfl
  | cons blob rest inductionHypothesis =>
      obtain ⟨head, tail⟩ := List.forall_mem_cons.mp others
      simp only [Daemon.uploadChunks]
      split
      next => rfl
      next stored parsed =>
        have other : stored ≠ id := by
          rintro rfl
          exact head (asBytes_of_parseChunkId parsed).symm
        have kept : Store.hasChunk (Store.putChunk blake3 disk stored blob.data).2.tables id =
            Store.hasChunk disk.tables id := hasChunk_putChunk other
        split
        next put =>
          rw [put] at kept
          exact (inductionHypothesis tail).trans kept
        next put =>
          rw [put] at kept
          exact (inductionHypothesis tail).trans kept

variable (blake3 : Blake3) (serving : Serving)

/-- The daemon, serving one client and nobody else meanwhile. -/
def Serving.loneDaemon : LoneDaemon (serving.backupPeer blake3) where
  holds disk id := Store.hasChunk disk.tables id
  listSnapshots disk := by
    simp only [backupPeer, handle]
    split <;> rfl
  hasChunks disk ids := by
    simp only [backupPeer, handle]
    split <;> rfl
  missing := by
    intro disk ids wire replied id asked
    simp only [backupPeer, handle] at replied
    split at replied
    next => cases replied
    next =>
      unfold Daemon.hasChunks at replied
      split at replied
      next => cases replied
      next parsed =>
        cases replied
        rw [asBytes_of_parseChunkIds parsed,
          List.mem_map_of_injective ChunkId.asBytes_injective] at asked
        simp [List.mem_map_of_injective ChunkId.asBytes_injective, asked]
  uploadChunks := by
    intro disk blobs id others
    simp only [backupPeer, handle]
    split
    next => rfl
    next => exact hasChunk_uploadChunks others

end Served

theorem mem_parseMissing {wire : List Bytes} {missing : List ChunkId}
    (parsed : parseMissing wire = .ok missing) (id : ChunkId) :
    id ∈ missing ↔ id.asBytes ∈ wire := by
  induction wire generalizing missing with
  | nil =>
      cases parsed
      simp
  | cons raw rest inductionHypothesis =>
      simp only [parseMissing] at parsed
      split at parsed
      next => cases parsed
      next head sliced =>
        split at parsed
        next => cases parsed
        next ids parsedRest =>
          cases parsed
          rw [List.mem_cons, List.mem_cons, inductionHypothesis parsedRest,
            ← ChunkId.asBytes_of_fromSlice? sliced, ChunkId.asBytes_injective.eq_iff]

section Pipeline

variable {Threshold : Type} (context : BackupContext Threshold) (held : ChunkId → Bool)

/-- The terms a backup runs under. -/
def termsOf : Terms where
  idOf := context.idOf
  held := held
  payload data := (chooseCodec context.libraries.compressors context.tests data context.phase
    context.policy .zero).1.2.length

@[simp]
theorem termsOf_held : (termsOf context held).held = held := rfl

/-- The counters after the backup's policy went through some chunks. -/
def countersOver (counters : PolicyCounters) (chunks : List Bytes) : PolicyCounters :=
  countChunks context.libraries.compressors context.tests context.phase context.policy counters
    chunks

/-- A chunk as it waits in the buffer. -/
def waitingAs (data : Bytes) : ChunkId × Bytes := ((termsOf context held).idOf data, data)

variable {context held}

theorem length_encodeChunk {compressors : Compressors} {tests : LengthTests Threshold}
    (chunk : Bytes) (phase : Phase) (config : PolicyConfig Threshold)
    (counters : PolicyCounters) :
    (encodeChunk compressors tests chunk phase config counters).1.length =
      1 + (chooseCodec compressors tests chunk phase config .zero).1.2.length := by
  have same := chooseCodec_eq compressors tests chunk phase config counters
  simp [encodeChunk, same, frame, Nat.add_comm]

variable {peer : BackupPeer}

/-- What sealing a batch sends and counts: the pending chunks reported
missing, and nothing of the others but their number. -/
theorem sealMissing_counts (lengthens : context.libraries.aead.Lengthens)
    {missing : List ChunkId} {chunks : List Bytes} {session next : Session peer}
    {blobs : List Daemon.ChunkBlob}
    (decided : ∀ data ∈ chunks, (termsOf context held).idOf data ∈ missing ↔
      held ((termsOf context held).idOf data) = false)
    (sealedOk : sealMissing context missing (chunks.map (waitingAs context held)) session =
      .ok (blobs, next)) :
    next.state = session.state ∧
      blobs.map (fun blob => blob.chunkId) = ((termsOf context held).lacking chunks).map
        (fun data => ((termsOf context held).idOf data).asBytes) ∧
      next.counters =
        countersOver context session.counters ((termsOf context held).lacking chunks) ∧
      next.report = session.report.flushing (termsOf context held) chunks := by
  induction chunks generalizing session blobs with
  | nil =>
      cases sealedOk
      simp [Terms.lacking, Terms.owned, countersOver, countChunks, BackupReport.flushing]
  | cons data rest inductionHypothesis =>
      obtain ⟨first, others⟩ := List.forall_mem_cons.mp decided
      simp only [List.map_cons, waitingAs, sealMissing] at sealedOk
      split at sealedOk
      next lacking =>
        have unheld := first.mp lacking
        split at sealedOk
        next => cases sealedOk
        next ciphertext encrypted =>
          split at sealedOk
          next => cases sealedOk
          next sealedRest final sealedOthers =>
            cases sealedOk
            obtain ⟨sameState, named, counted, reported⟩ := inductionHypothesis others sealedOthers
            have length : ciphertext.length = (termsOf context held).blobLen data := by
              rw [length_encryptChunk lengthens encrypted, length_encodeChunk]
              rfl
            rw [lacking_cons_of_unheld rest unheld, flushing_cons_of_unheld unheld, ← length]
            refine ⟨sameState, ?_, counted, reported⟩
            rw [List.map_cons, List.map_cons, named]
      next notMissing =>
        have isHeld : (termsOf context held).held ((termsOf context held).idOf data) = true := by
          simpa using mt first.mpr notMissing
        rw [lacking_cons_of_held rest isHeld, flushing_cons_of_held isHeld]
        exact inductionHypothesis others sealedOk

/-- What a session has sent for the chunks it has flushed, and what the daemon
still holds of the others. -/
structure Sent (context : BackupContext Threshold) (held : ChunkId → Bool)
    (daemon : LoneDaemon peer) (session : Session peer.recording) (flushed : List Bytes) :
    Prop where
  asked : session.state.2.asked.flatten =
    flushed.map fun data => ((termsOf context held).idOf data).asBytes
  uploaded : session.state.2.uploaded.flatten.map (fun blob => blob.chunkId) =
    ((termsOf context held).lacking flushed).map
      fun data => ((termsOf context held).idOf data).asBytes
  counters : session.counters =
    countersOver context .zero ((termsOf context held).lacking flushed)
  holds : ∀ id, id ∉ flushed.map (termsOf context held).idOf →
    daemon.holds session.state.1 id = held id

theorem Sent.withReport {daemon : LoneDaemon peer} {session : Session peer.recording}
    {flushed : List Bytes} (sent : Sent context held daemon session flushed)
    (report : BackupReport) : Sent context held daemon { session with report := report } flushed :=
  ⟨sent.asked, sent.uploaded, sent.counters, sent.holds⟩

/-- What `HasChunks` says of a chunk not flushed yet is what the daemon held of
it at the start. -/
theorem Sent.mem_missing_iff {daemon : LoneDaemon peer} {session : Session peer.recording}
    {flushed : List Bytes} (sent : Sent context held daemon session flushed) {ids wire : List Bytes}
    {missing : List ChunkId} (replied : (peer.hasChunks session.state.1 ids).1 = .ok wire)
    (parsed : parseMissing wire = .ok missing) {id : ChunkId} (asked : id.asBytes ∈ ids)
    (unflushed : id ∉ flushed.map (termsOf context held).idOf) :
    id ∈ missing ↔ held id = false := by
  rw [mem_parseMissing parsed, daemon.missing replied id asked, sent.holds id unflushed]

theorem upload_records {blobs : List Daemon.ChunkBlob} {session next : Session peer.recording}
    (uploadOk : upload blobs session = .ok next) :
    next.state.2.asked = session.state.2.asked ∧
      next.state.2.uploaded.flatten = session.state.2.uploaded.flatten ++ blobs ∧
      next.counters = session.counters ∧ next.report = session.report ∧
      ∀ (daemon : LoneDaemon peer) (id : ChunkId),
        (∀ blob ∈ blobs, blob.chunkId ≠ id.asBytes) →
          daemon.holds next.state.1 id = daemon.holds session.state.1 id := by
  obtain ⟨rfl, rfl⟩ | ⟨outcome, state, answered, rfl⟩ := exists_reply_of_upload uploadOk
  · simp
  · obtain ⟨-, rfl⟩ := Prod.mk.inj answered
    refine ⟨rfl, by simp, rfl, rfl, fun daemon id others => ?_⟩
    exact daemon.uploadChunks others

/-- A flush asks about the buffer and uploads what the daemon held none of at
the start. -/
theorem flush_sends (lengthens : context.libraries.aead.Lengthens)
    {daemon : LoneDaemon peer} {session next : Session peer.recording}
    {flushed waiting : List Bytes} (sent : Sent context held daemon session flushed)
    (fresh : ((flushed ++ waiting).map (termsOf context held).idOf).Nodup)
    (flushOk : flush context (waiting.map (waitingAs context held)) session = .ok next) :
    Sent context held daemon next (flushed ++ waiting) ∧
      next.report = session.report.flushing (termsOf context held) waiting := by
  obtain ⟨none, rfl⟩ | ⟨missingWire, state, missing, blobs, sealedSession, answered, parsed, sealedOk,
    uploadOk⟩ := exists_steps_of_flush flushOk
  · obtain rfl := List.map_eq_nil_iff.mp none
    simpa [BackupReport.flushing, Terms.lacking, Terms.owned] using sent
  · obtain ⟨replied, rfl⟩ := Prod.mk.inj answered
    rw [List.map_append] at fresh
    have decided : ∀ data ∈ waiting, (termsOf context held).idOf data ∈ missing ↔
        held ((termsOf context held).idOf data) = false := by
      intro data listed
      apply sent.mem_missing_iff replied parsed
      · simpa [waitingAs] using ⟨data, listed, rfl⟩
      · intro earlier
        exact List.disjoint_of_nodup_append fresh earlier (List.mem_map_of_mem listed)
    obtain ⟨sameState, named, counted, reported⟩ :=
      sealMissing_counts lengthens decided sealedOk
    obtain ⟨asked, uploaded, counters, report, holds⟩ := upload_records uploadOk
    have lacks := lacking_append (termsOf context held) flushed waiting
    refine ⟨⟨?_, ?_, ?_, ?_⟩, report.trans reported⟩
    · rw [asked, sameState]
      simp [BackupPeer.recording, sent.asked, waitingAs]
    · rw [uploaded, List.map_append, named, sameState, lacks, List.map_append,
        ← sent.uploaded]
    · rw [counters, counted, lacks, countersOver, countersOver, countChunks, countChunks,
        List.foldl_append, sent.counters]
      rfl
    · intro id absent
      simp only [List.map_append, List.mem_append, not_or] at absent
      have unnamed : ∀ blob ∈ blobs, blob.chunkId ≠ id.asBytes := by
        intro blob listed same
        have inNamed := List.mem_map_of_mem (f := fun blob => blob.chunkId) listed
        rw [named, same] at inNamed
        obtain ⟨data, lacking, equal⟩ := List.mem_map.mp inNamed
        apply absent.2
        rw [← ChunkId.asBytes_injective equal]
        exact List.mem_map_of_mem (List.mem_of_mem_filter lacking)
      rw [holds daemon id unnamed, sameState, ← sent.holds id absent.1]
      exact congrFun (daemon.hasChunks ..) id

end Pipeline

end Busyncr.Client
