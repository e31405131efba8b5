import Busyncr.Client.Ledger
import Busyncr.Client.RoundTrip

/-!
The ledger over whole backups: every chunk taken keeps the report equal to the
ledger of a growing tally, and so does every file and the whole run; each
progress observation is the ledger of a tally in between.
-/

namespace Busyncr.Client

open FirstOccurrence

/-- Observations of a run from one tally to another, each of a tally on the
way. -/
inductive Trace (terms : Terms) :
    Tally terms.idOf → List Observation → Tally terms.idOf → Prop
  | done {first last} (precedes : first.Precedes last) : Trace terms first [] last
  | observe {first middle last observation rest} (precedes : first.Precedes middle)
      (shows : observation.report.Shows (terms.ledger middle))
      (onward : Trace terms middle rest last) : Trace terms first (observation :: rest) last

section Traces

variable {terms : Terms} {first middle last : Tally terms.idOf} {observed more : List Observation}

theorem Trace.after (precedes : first.Precedes middle) (trace : Trace terms middle observed last) :
    Trace terms first observed last := by
  cases trace with
  | done onward => exact .done (precedes.trans onward)
  | observe onward shows rest => exact .observe (precedes.trans onward) shows rest

theorem Trace.append (trace : Trace terms first observed middle)
    (onward : Trace terms middle more last) : Trace terms first (observed ++ more) last := by
  induction trace with
  | done precedes => exact onward.after precedes
  | observe precedes shows _ inductionHypothesis =>
      exact .observe precedes shows (inductionHypothesis onward)

theorem Trace.precedes (trace : Trace terms first observed last) : first.Precedes last := by
  induction trace with
  | done precedes => exact precedes
  | observe precedes _ _ inductionHypothesis => exact precedes.trans inductionHypothesis

/-- Every observation shows the ledger of a tally between the ends. -/
theorem Trace.shows (trace : Trace terms first observed last) :
    ∀ observation ∈ observed, ∃ tally : Tally terms.idOf, first.Precedes tally ∧
      tally.Precedes last ∧ observation.report.Shows (terms.ledger tally) := by
  induction trace with
  | done => simp
  | observe precedes shows onward inductionHypothesis =>
      refine List.forall_mem_cons.mpr ⟨⟨_, precedes, onward.precedes, shows⟩, ?_⟩
      intro observation listed
      obtain ⟨tally, later, before, shown⟩ := inductionHypothesis observation listed
      exact ⟨tally, precedes.trans later, before, shown⟩

end Traces

section Steps

variable {Threshold : Type} {context : BackupContext Threshold} {held : ChunkId → Bool}
  {peer : BackupPeer} {daemon : LoneDaemon peer}

/-- The invariant of the file loop: the report shows the tally's ledger, the
chunks taken and not flushed wait in the buffer, and the flushed ones were
sent. -/
structure Accounts (context : BackupContext Threshold) (held : ChunkId → Bool)
    (daemon : LoneDaemon peer) (run : BackupRun peer.recording)
    (tally : Tally (termsOf context held).idOf) : Prop where
  shows : run.session.report.Shows ((termsOf context held).ledger tally)
  seen : ∀ id, id ∈ run.seen ↔ id ∈ tally.taken.map (termsOf context held).idOf
  buffer : ∃ waiting, run.pending = waiting.map (waitingAs context held) ∧
    firsts (termsOf context held).idOf tally.taken = tally.flushed ++ waiting
  sent : Sent context held daemon run.session tally.flushed

theorem takeChunk_accounts (lengthens : context.libraries.aead.Lengthens)
    {run next : BackupRun peer.recording} {tally : Tally (termsOf context held).idOf}
    {data : Bytes} (accounts : Accounts context held daemon run tally)
    (taken : takeChunk context run data = .ok next) :
    Accounts context held daemon next
      (if Flushes context run data then (tally.take data).flush else tally.take data) := by
  obtain ⟨shows, seen, ⟨waiting, pending, buffer⟩, sent⟩ := accounts
  by_cases known : (termsOf context held).idOf data ∈ run.seen
  · have inTaken := (seen _).mp known
    have room : ¬ Flushes context run data := fun full => full.1 known
    rw [takeChunk_of_seen known] at taken
    cases taken
    rw [if_neg room]
    refine ⟨shows.take_seen inTaken, fun id => ?_, ⟨waiting, pending, ?_⟩,
      sent.withReport _⟩
    · simp only [seen, Tally.take, List.map_append, List.mem_append, List.map_singleton,
        List.mem_singleton]
      refine ⟨.inl, ?_⟩
      rintro (earlier | rfl)
      · exact earlier
      · exact inTaken
    · simpa only [Tally.take, firsts_concat_of_mem inTaken] using buffer
  · have fresh := mt (seen _).mpr known
    have seenNext : ∀ id, id ∈ (termsOf context held).idOf data :: run.seen ↔
        id ∈ (tally.take data).taken.map (termsOf context held).idOf := by
      intro id
      simp [seen, Tally.take, or_comm]
    have bufferNext : firsts (termsOf context held).idOf (tally.take data).taken =
        tally.flushed ++ (waiting ++ [data]) := by
      rw [← List.append_assoc, ← buffer]
      exact firsts_concat_of_not_mem fresh
    have pendingNext : run.pending ++ [((termsOf context held).idOf data, data)] =
        (waiting ++ [data]).map (waitingAs context held) := by
      simp [pending, waitingAs]
    by_cases full : Flushes context run data
    · rw [if_pos full]
      rw [takeChunk_of_flushes full] at taken
      change Except.map _ (flush context
        (run.pending ++ [((termsOf context held).idOf data, data)]) run.countedNew) = _ at taken
      rw [pendingNext] at taken
      cases flushOk : flush context ((waiting ++ [data]).map (waitingAs context held))
          run.countedNew with
      | error error =>
          rw [flushOk] at taken
          cases taken
      | ok session =>
          rw [flushOk] at taken
          cases taken
          have distinct : ((tally.flushed ++ (waiting ++ [data])).map
              (termsOf context held).idOf).Nodup := by
            rw [← bufferNext]
            exact nodup_map_firsts _
          obtain ⟨sentNext, reported⟩ := flush_sends lengthens (sent.withReport _) distinct flushOk
          refine ⟨?_, seenNext, ⟨[], rfl, by simp [Tally.flush]⟩, ?_⟩
          · rw [show session.report = _ from reported]
            exact (shows.take_fresh fresh).flush bufferNext
          · rw [← bufferNext] at sentNext
            exact sentNext
    · rw [if_neg full]
      rw [takeChunk_of_buffers known full] at taken
      cases taken
      exact ⟨shows.take_fresh fresh, seenNext, ⟨_, pendingNext, bufferNext⟩,
        sent.withReport _⟩

variable (totals : BackupTotals)

/-- The chunk loop: observed tally by tally, and accounted for at its end. -/
theorem takeChunksObserved_accounts (lengthens : context.libraries.aead.Lengthens)
    (chunks : List Bytes) {run : BackupRun peer.recording}
    {tally : Tally (termsOf context held).idOf}
    (accounts : Accounts context held daemon run tally) :
    ∃ last, Trace (termsOf context held) tally (takeChunksObserved context totals chunks run).1
        last ∧
      ∀ next, (takeChunksObserved context totals chunks run).2 = .ok next →
        Accounts context held daemon next last ∧ last.taken = tally.taken ++ chunks ∧
          last.files = tally.files ∧ last.sourceBytes = tally.sourceBytes := by
  induction chunks generalizing run tally with
  | nil =>
      refine ⟨tally, .done (.refl tally), ?_⟩
      rintro next ⟨⟩
      exact ⟨accounts, by simp, rfl, rfl⟩
  | cons data rest inductionHypothesis =>
      simp only [takeChunksObserved]
      cases step : takeChunk context run data with
      | error error =>
          refine ⟨tally, .done (.refl tally), ?_⟩
          rintro next ⟨⟩
      | ok next =>
          have stepped := takeChunk_accounts lengthens accounts step
          obtain ⟨last, trace, complete⟩ := inductionHypothesis stepped
          simp only
          refine ⟨last, ?_, fun final reached => ?_⟩
          · by_cases full : Flushes context run data
            · rw [if_pos full] at trace stepped ⊢
              exact .observe ((tally.precedes_take data).trans (tally.take data).precedes_flush)
                stepped.shows trace
            · rw [if_neg full] at trace ⊢
              exact trace.after (tally.precedes_take data)
          · obtain ⟨accountsLast, taken, files, sourceBytes⟩ := complete final reached
            refine ⟨accountsLast, ?_, ?_, ?_⟩
            · rw [taken]
              split <;> simp [Tally.flush, Tally.take]
            · rw [files]
              split <;> rfl
            · rw [sourceBytes]
              split <;> rfl

/-- One file: the tally takes its chunks and finishes a file of their joint
length. -/
theorem captureFileObserved_accounts (lengthens : context.libraries.aead.Lengthens)
    (chunker : Bytes → Option (List Bytes)) (spec : FileSpec) {run : BackupRun peer.recording}
    {tally : Tally (termsOf context held).idOf}
    (accounts : Accounts context held daemon run tally) :
    ∃ last, Trace (termsOf context held) tally
        (captureFileObserved context totals chunker spec run).1 last ∧
      ∀ entry next,
        (captureFileObserved context totals chunker spec run).2 = .ok (entry, next) →
          Accounts context held daemon next last ∧
            ∃ chunks, chunker spec.file.content = some chunks ∧
              last.taken = tally.taken ++ chunks ∧ last.files = tally.files + 1 ∧
              last.sourceBytes = tally.sourceBytes + chunks.flatten.length := by
  unfold captureFileObserved
  cases cut : chunker spec.file.content with
  | none =>
      refine ⟨tally, .done (.refl tally), ?_⟩
      rintro entry next ⟨⟩
  | some chunks =>
      obtain ⟨last, trace, complete⟩ :=
        takeChunksObserved_accounts totals lengthens chunks accounts
      simp only
      generalize takeChunksObserved context totals chunks run = outcome at trace complete
      obtain ⟨observed, reached⟩ := outcome
      cases reached with
      | error error =>
          refine ⟨last, trace, ?_⟩
          rintro entry next ⟨⟩
      | ok next =>
          obtain ⟨accountsLast, taken, files, sourceBytes⟩ := complete next rfl
          have size : (entryOf context spec chunks).size = UInt64.ofNat chunks.flatten.length :=
            sum_ofNat_length chunks
          have shows := accountsLast.shows.finish chunks.flatten.length
          rw [← size] at shows
          refine ⟨last.finish chunks.flatten.length,
            trace.append (.observe (last.precedes_finish _) shows (.done (.refl _))), ?_⟩
          rintro entry final ⟨⟩
          exact ⟨⟨shows, accountsLast.seen, accountsLast.buffer, accountsLast.sent.withReport _⟩,
            chunks, rfl, taken, by simp [Tally.finish, files],
            by simp [Tally.finish, sourceBytes]⟩

/-- All files: the tally took their chunks one file after another. -/
theorem captureFilesObserved_accounts (lengthens : context.libraries.aead.Lengthens)
    (chunker : Bytes → Option (List Bytes)) (specs : List FileSpec)
    {run : BackupRun peer.recording} {tally : Tally (termsOf context held).idOf}
    (accounts : Accounts context held daemon run tally) :
    ∃ last, Trace (termsOf context held) tally
        (captureFilesObserved context totals chunker specs run).1 last ∧
      ∀ entries next,
        (captureFilesObserved context totals chunker specs run).2 = .ok (entries, next) →
          Accounts context held daemon next last ∧
            ∃ cuts, List.Forall₂ (fun spec chunks => chunker spec.file.content = some chunks)
                specs cuts ∧
              last.taken = tally.taken ++ cuts.flatten ∧
              last.files = tally.files + specs.length ∧
              last.sourceBytes = tally.sourceBytes + cuts.flatten.flatten.length := by
  induction specs generalizing run tally with
  | nil =>
      refine ⟨tally, .done (.refl tally), ?_⟩
      rintro entries next ⟨⟩
      exact ⟨accounts, [], .nil, by simp⟩
  | cons spec rest inductionHypothesis =>
      obtain ⟨middle, trace, complete⟩ :=
        captureFileObserved_accounts totals lengthens chunker spec accounts
      simp only [captureFilesObserved]
      generalize captureFileObserved context totals chunker spec run = outcome at trace complete
      obtain ⟨observed, reached⟩ := outcome
      cases reached with
      | error error =>
          refine ⟨middle, trace, ?_⟩
          rintro entries next ⟨⟩
      | ok captured =>
          obtain ⟨entry, next⟩ := captured
          obtain ⟨accountsNext, chunks, cut, taken, files, sourceBytes⟩ := complete entry next rfl
          obtain ⟨last, traceRest, completeRest⟩ := inductionHypothesis accountsNext
          simp only
          generalize captureFilesObserved context totals chunker rest next = remaining
            at traceRest completeRest
          obtain ⟨more, reached⟩ := remaining
          cases reached with
          | error error =>
              refine ⟨last, trace.append traceRest, ?_⟩
              rintro entries next ⟨⟩
          | ok completed =>
              obtain ⟨accountsLast, cuts, cutRest, takenRest, filesRest, sourceRest⟩ :=
                completeRest completed.1 completed.2 rfl
              refine ⟨last, trace.append traceRest, ?_⟩
              rintro entries final ⟨⟩
              refine ⟨accountsLast, chunks :: cuts, .cons cut cutRest, ?_, ?_, ?_⟩
              · rw [takenRest, taken, List.append_assoc, List.flatten_cons]
              · rw [filesRest, files, List.length_cons]
                omega
              · rw [sourceRest, sourceBytes, List.flatten_cons, List.flatten_append,
                  List.length_append]
                omega

end Steps

/-- The ledger of a finished backup of files cut into these chunks. -/
def Terms.finalLedger (terms : Terms) (cuts : List (List Bytes)) : Ledger :=
  let distinct := firsts terms.idOf cuts.flatten
  { files := cuts.length
    sourceBytes := (cuts.map fun chunks => (chunks.map List.length).sum).sum
    chunksTotal := cuts.flatten.length
    chunksUnique := distinct.length
    chunksUploaded := (terms.lacking distinct).length
    chunksDeduped := (terms.owned distinct).length
    uploadBytes := ((terms.lacking distinct).map terms.blobLen).sum }

section Run

variable {Threshold : Type} {libraries : Libraries} {tests : LengthTests Threshold}
  {keys : KeyPair} {nonces : Nat → Nonce} {peer : BackupPeer}

theorem commitManifest_records {context : BackupContext Threshold} {manifest : Manifest}
    {session : Session peer.recording} {report : BackupReport} {final : peer.recording.State}
    (committed : commitManifest context manifest session = .ok (report, final)) :
    final.2 = session.state.2 ∧ report.compression = session.counters ∧
      ∀ ledger, session.report.Shows ledger → report.Shows ledger := by
  obtain ⟨_, _, _, _, answered, rfl⟩ := exists_sealed_of_commitManifest committed
  obtain ⟨-, rfl⟩ := Prod.mk.inj answered
  refine ⟨rfl, rfl, fun ledger shows => ?_⟩
  exact ⟨shows.files, shows.sourceBytes, shows.chunksTotal, shows.chunksUnique,
    shows.chunksUploaded, shows.chunksDeduped, shows.uploadBytes⟩

/-- What a finished backup sent, returned and showed on the way, chunk by
chunk. -/
structure Settled (context : BackupContext Threshold) (held : ChunkId → Bool)
    (cuts : List (List Bytes)) (wire : Wire) (report : BackupReport)
    (observations : List Observation) : Prop where
  asked : wire.asked.flatten = (firsts (termsOf context held).idOf cuts.flatten).map
    fun data => ((termsOf context held).idOf data).asBytes
  uploaded : wire.uploaded.flatten.map (fun blob => blob.chunkId) =
    ((termsOf context held).lacking (firsts (termsOf context held).idOf cuts.flatten)).map
      fun data => ((termsOf context held).idOf data).asBytes
  compression : report.compression = countersOver context .zero
    ((termsOf context held).lacking (firsts (termsOf context held).idOf cuts.flatten))
  shows : report.Shows ((termsOf context held).finalLedger cuts)
  trace : ∃ first last : Tally (termsOf context held).idOf,
    (termsOf context held).ledger last = (termsOf context held).finalLedger cuts ∧
      Trace (termsOf context held) first observations last
  final : ∃ earlier last totals, observations = earlier ++ [⟨last, totals, true⟩] ∧
    (∀ observation ∈ earlier, observation.final = false) ∧
    last.Shows ((termsOf context held).finalLedger cuts)

theorem length_flatten_flatten (cuts : List (List Bytes)) :
    cuts.flatten.flatten.length = (cuts.map fun chunks => (chunks.map List.length).sum).sum := by
  induction cuts with
  | nil => rfl
  | cons chunks rest inductionHypothesis =>
      simp [inductionHypothesis, List.length_flatten]

/-- The last flush and the manifest settle a run whose files were all taken. -/
theorem settled_of_accounts {context : BackupContext Threshold} {held : ChunkId → Bool}
    (lengthens : context.libraries.aead.Lengthens) {daemon : LoneDaemon peer}
    {run : BackupRun peer.recording} {first last : Tally (termsOf context held).idOf}
    {observed : List Observation} {cuts : List (List Bytes)}
    (accounts : Accounts context held daemon run last)
    (trace : Trace (termsOf context held) first observed last)
    (unfinished : ∀ observation ∈ observed, observation.final = false)
    (taken : last.taken = cuts.flatten) (files : last.files = cuts.length)
    (sourceBytes : last.sourceBytes = cuts.flatten.flatten.length)
    {session : Session peer.recording}
    (flushOk : flush context run.pending run.session = .ok session)
    {manifest : Manifest} {report : BackupReport} {final : peer.recording.State}
    (committed : commitManifest context manifest session = .ok (report, final))
    (totals : BackupTotals) :
    Settled context held cuts final.2 report (observed ++ [⟨session.report, totals, true⟩]) := by
  obtain ⟨waiting, pending, buffer⟩ := accounts.buffer
  have distinct : ((last.flushed ++ waiting).map (termsOf context held).idOf).Nodup := by
    rw [← buffer]
    exact nodup_map_firsts _
  rw [pending] at flushOk
  obtain ⟨sent, reported⟩ := flush_sends lengthens accounts.sent distinct flushOk
  rw [← buffer, taken] at sent
  have ledger : (termsOf context held).ledger last.flush =
      (termsOf context held).finalLedger cuts := by
    rw [length_flatten_flatten] at sourceBytes
    simp only [Terms.ledger, Terms.finalLedger, Tally.flush, taken, files, sourceBytes]
  have shows : session.report.Shows ((termsOf context held).ledger last.flush) := by
    rw [reported]
    exact accounts.shows.flush buffer
  obtain ⟨wire, compression, kept⟩ := commitManifest_records committed
  rw [wire]
  refine ⟨sent.asked, sent.uploaded, compression.trans sent.counters, ?_, ⟨first, last.flush,
    ledger, ?_⟩, ⟨observed, session.report, totals, rfl,
    unfinished, ?_⟩⟩
  · exact kept _ (ledger ▸ shows)
  · exact trace.append (.observe last.precedes_flush shows (.done (.refl _)))
  · exact ledger ▸ shows

theorem runBackupWithProgress_settles (lengthens : libraries.aead.Lengthens)
    (daemon : LoneDaemon peer) {state : peer.State} {final : peer.recording.State}
    {request : BackupRequest Threshold} {observations : List Observation} {report : BackupReport}
    (succeeds : runBackupWithProgress libraries tests keys nonces peer.recording
      (recordedIn state .empty) request = (observations, .ok (report, final))) :
    ∃ existing specs cuts, (peer.listSnapshots state).1 = .ok existing ∧
      collectFiles request.roots = .ok specs ∧
      List.Forall₂ (fun spec chunks => request.chunker spec.file.content = some chunks)
        specs cuts ∧
      Settled (contextOf libraries tests keys nonces request existing) (daemon.holds state) cuts
        final.2 report observations := by
  unfold runBackupWithProgress at succeeds
  split at succeeds
  next => cases succeeds
  next existing next listed =>
    obtain ⟨replied, rfl⟩ := Prod.mk.inj listed
    split at succeeds
    next => cases succeeds
    next specs collected =>
      have contextLengthens : (contextOf libraries tests keys nonces request
        existing).libraries.aead.Lengthens := lengthens
      suffices settled : ∃ cuts, List.Forall₂ (fun spec chunks =>
          request.chunker spec.file.content = some chunks) specs cuts ∧
          Settled (contextOf libraries tests keys nonces request existing) (daemon.holds state)
            cuts final.2 report observations by
        obtain ⟨cuts, cut, settled⟩ := settled
        exact ⟨existing, specs, cuts, replied, collected, cut, settled⟩
      simp only at succeeds
      generalize contextOf libraries tests keys nonces request existing = context
        at contextLengthens succeeds ⊢
      have accounts : Accounts context (daemon.holds state) daemon
          (.start (recordedIn (peer.listSnapshots state).2 .empty) request.snapshotId)
          ⟨0, 0, [], [], List.prefix_rfl⟩ := by
        refine ⟨shows_start _, by simp [BackupRun.start], ⟨[], rfl, rfl⟩, ⟨rfl, rfl, rfl, ?_⟩⟩
        intro id _
        exact congrFun (daemon.listSnapshots state) id
      obtain ⟨last, trace, complete⟩ := captureFilesObserved_accounts (totalsOf specs)
        contextLengthens request.chunker specs accounts
      split at succeeds
      next => cases succeeds
      next observed files run captured =>
        rw [show captureFilesObserved context _ _ _ _ = _ from captured] at trace complete
        obtain ⟨accountsLast, cuts, cut, taken, filesCount, sourceBytes⟩ := complete files run rfl
        split at succeeds
        next => cases succeeds
        next session flushOk =>
          obtain ⟨rfl, committed⟩ := Prod.mk.inj succeeds
          have unfinished := final_captureFilesObserved context (totalsOf specs) request.chunker
            specs (.start (recordedIn (peer.listSnapshots state).2 .empty) request.snapshotId)
          rw [show captureFilesObserved context _ _ _ _ = _ from captured] at unfinished
          have counted : last.files = cuts.length := by
            rw [filesCount, ← cut.length_eq]
            simp
          refine ⟨cuts, cut, settled_of_accounts contextLengthens accountsLast trace unfinished ?_
            counted ?_ flushOk committed _⟩
          · simpa using taken
          · simpa using sourceBytes

/-- A finished backup as its daemon and its observers saw it. -/
structure Transferred (terms : Terms) (cuts : List (List Bytes)) (wire : Wire)
    (report : BackupReport) (observations : List Observation) : Prop where
  askedOnce : wire.asked.flatten.Nodup
  askedAll : ∀ raw, raw ∈ wire.asked.flatten ↔
    ∃ data ∈ cuts.flatten, (terms.idOf data).asBytes = raw
  uploadedOnce : (wire.uploaded.flatten.map fun blob => blob.chunkId).Nodup
  uploadedLacking : ∀ raw, raw ∈ wire.uploaded.flatten.map (fun blob => blob.chunkId) ↔
    ∃ data ∈ cuts.flatten, (terms.idOf data).asBytes = raw ∧ terms.held (terms.idOf data) = false
  shows : report.Shows (terms.finalLedger cuts)
  settled : report.chunksUnique = report.chunksUploaded + report.chunksDeduped
  final : ∃ earlier last totals, observations = earlier ++ [⟨last, totals, true⟩] ∧
    (∀ observation ∈ earlier, observation.final = false) ∧
    last.files = report.files ∧ last.sourceBytes = report.sourceBytes ∧
    last.chunksTotal = report.chunksTotal ∧ last.chunksUnique = report.chunksUnique ∧
    last.chunksUploaded = report.chunksUploaded ∧ last.chunksDeduped = report.chunksDeduped ∧
    last.uploadBytes = report.uploadBytes
  monotone : (terms.finalLedger cuts).Fits →
    observations.Pairwise fun earlier later => earlier.report.Below later.report
  balanced : (terms.finalLedger cuts).Fits → ∀ observation ∈ observations,
    observation.report.chunksUploaded + observation.report.chunksDeduped ≤
        observation.report.chunksUnique ∧
      observation.report.chunksUnique ≤ observation.report.chunksTotal

theorem Trace.pairwise {terms : Terms} {first last : Tally terms.idOf}
    {observed : List Observation} (trace : Trace terms first observed last)
    (fits : (terms.ledger last).Fits) :
    observed.Pairwise fun earlier later => earlier.report.Below later.report := by
  induction trace with
  | done => exact .nil
  | observe precedes shows onward inductionHypothesis =>
      refine .cons ?_ (inductionHypothesis fits)
      intro later listed
      obtain ⟨tally, follows, before, shown⟩ := onward.shows later listed
      exact shows.below shown (ledger_le_of_precedes follows)
        (fits.of_le (ledger_le_of_precedes before)) (balanced_ledger tally)

theorem Settled.transferred {context : BackupContext Threshold} {held : ChunkId → Bool}
    {cuts : List (List Bytes)} {wire : Wire} {report : BackupReport}
    {observations : List Observation}
    (settled : Settled context held cuts wire report observations) :
    Transferred (termsOf context held) cuts wire report observations := by
  obtain ⟨asked, uploaded, -, shows, ⟨first, last, ledger, trace⟩, earlier, final, totals, split,
    unfinished, finalShows⟩ := settled
  have distinct : ((firsts (termsOf context held).idOf cuts.flatten).map
      (termsOf context held).idOf).Nodup := nodup_map_firsts cuts.flatten
  constructor
  case askedOnce =>
    rw [asked, ← Function.comp_def, ← List.map_map]
    exact distinct.map ChunkId.asBytes_injective
  case askedAll =>
    intro raw
    rw [asked, List.mem_map]
    exact exists_mem_firsts fun id : ChunkId => id.asBytes = raw
  case uploadedOnce =>
    rw [uploaded, ← Function.comp_def, ← List.map_map]
    exact (distinct.sublist (List.filter_sublist.map _)).map ChunkId.asBytes_injective
  case uploadedLacking =>
    intro raw
    rw [uploaded, List.mem_map, ← exists_mem_firsts fun id : ChunkId =>
      id.asBytes = raw ∧ (termsOf context held).held id = false]
    simp only [Terms.lacking, List.mem_filter, Bool.not_eq_true']
    constructor
    · rintro ⟨data, ⟨listed, unheld⟩, named⟩
      exact ⟨data, listed, named, unheld⟩
    · rintro ⟨data, listed, named, unheld⟩
      exact ⟨data, ⟨listed, unheld⟩, named⟩
  case shows => exact shows
  case settled =>
    rw [shows.chunksUnique, shows.chunksUploaded, shows.chunksDeduped, ← UInt64.ofNat_add]
    congr 1
    exact (length_lacking_add_owned _).symm
  case final =>
    exact ⟨earlier, final, totals, split, unfinished, finalShows.files.trans shows.files.symm,
      finalShows.sourceBytes.trans shows.sourceBytes.symm,
      finalShows.chunksTotal.trans shows.chunksTotal.symm,
      finalShows.chunksUnique.trans shows.chunksUnique.symm,
      finalShows.chunksUploaded.trans shows.chunksUploaded.symm,
      finalShows.chunksDeduped.trans shows.chunksDeduped.symm,
      finalShows.uploadBytes.trans shows.uploadBytes.symm⟩
  case monotone =>
    intro fits
    rw [← ledger] at fits
    exact trace.pairwise fits
  case balanced =>
    intro fits observation listed
    rw [← ledger] at fits
    obtain ⟨tally, -, before, shown⟩ := trace.shows observation listed
    exact shown.balanced (fits.of_le (ledger_le_of_precedes before)) (balanced_ledger tally)

theorem sum_sizes_of_tiles {chunker : Bytes → Option (List Bytes)}
    (tiles : ∀ bytes chunks, chunker bytes = some chunks → chunks.flatten = bytes)
    {specs : List FileSpec} {cuts : List (List Bytes)}
    (cut : List.Forall₂ (fun spec chunks => chunker spec.file.content = some chunks) specs cuts) :
    (cuts.map fun chunks => (chunks.map List.length).sum).sum =
      (specs.map fun spec => spec.file.content.length).sum := by
  induction cut with
  | nil => rfl
  | cons head _ inductionHypothesis =>
      rw [List.map_cons, List.map_cons, List.sum_cons, List.sum_cons, inductionHypothesis,
        ← tiles _ _ head, List.length_flatten]

/-- The transfer ledger of a backup: whatever the files and their chunks, every
distinct chunk is asked about once, what the daemon lacked at the start is
uploaded once, and the report and its observations count just that. -/
theorem backup_transfer_ledger (lengthens : libraries.aead.Lengthens) (daemon : LoneDaemon peer)
    {state final : peer.State} {request : BackupRequest Threshold}
    {observations : List Observation} {report : BackupReport}
    (succeeds : runBackupWithProgress libraries tests keys nonces peer state request =
      (observations, .ok (report, final))) :
    ∃ existing specs cuts wire, (peer.listSnapshots state).1 = .ok existing ∧
      collectFiles request.roots = .ok specs ∧
      List.Forall₂ (fun spec chunks => request.chunker spec.file.content = some chunks)
        specs cuts ∧
      runBackupWithProgress libraries tests keys nonces peer.recording
        (recordedIn state .empty) request = (observations, .ok (report, final, wire)) ∧
      Transferred (termsOf (contextOf libraries tests keys nonces request existing)
        (daemon.holds state)) cuts wire report observations ∧
      ((∀ bytes chunks, request.chunker bytes = some chunks → chunks.flatten = bytes) →
        report.sourceBytes =
          UInt64.ofNat (specs.map fun spec => spec.file.content.length).sum) := by
  obtain ⟨wire, recorded⟩ := exists_recording succeeds .empty
  obtain ⟨existing, specs, cuts, replied, collected, cut, settled⟩ :=
    runBackupWithProgress_settles lengthens daemon recorded
  refine ⟨existing, specs, cuts, wire, replied, collected, cut, recorded, settled.transferred,
    fun tiles => ?_⟩
  rw [settled.shows.sourceBytes]
  exact congrArg UInt64.ofNat (sum_sizes_of_tiles tiles cut)

end Run

theorem sample_backup_is_accounted :
    ∃ observations report final, runBackupWithProgress sampleLibraries sampleTests sampleKeys
        resumedNonces (sampleServing.backupPeer sampleLibraries.blake3) interruptedDisk
        sampleRequest = (observations, .ok (report, final)) ∧
      ∃ existing specs cuts wire, collectFiles sampleRequest.roots = .ok specs ∧
        Transferred (termsOf (contextOf sampleLibraries sampleTests sampleKeys resumedNonces
          sampleRequest existing) ((sampleServing.loneDaemon sampleLibraries.blake3).holds
            interruptedDisk)) cuts wire report observations := by
  have checked : (runBackupWithProgress sampleLibraries sampleTests sampleKeys resumedNonces
      (sampleServing.backupPeer sampleLibraries.blake3) interruptedDisk
      sampleRequest).2.isOk = true := by
    decide +kernel
  cases run : runBackupWithProgress sampleLibraries sampleTests sampleKeys resumedNonces
      (sampleServing.backupPeer sampleLibraries.blake3) interruptedDisk sampleRequest with
  | mk observations outcome =>
      rw [run] at checked
      cases outcome with
      | error error => cases checked
      | ok result =>
          obtain ⟨report, final⟩ := result
          obtain ⟨existing, specs, cuts, wire, _, collected, _, _, transferred, _⟩ :=
            backup_transfer_ledger sampleRecords_coherent.inverts.lengthens
              (sampleServing.loneDaemon sampleLibraries.blake3) run
          exact ⟨observations, report, final, rfl, existing, specs, cuts, wire, collected,
            transferred⟩

end Busyncr.Client
