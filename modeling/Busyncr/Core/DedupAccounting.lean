import Busyncr.Core.Bench
import Busyncr.Lib.Percentile
import Mathlib.Algebra.BigOperators.Group.Finset.Basic
import Mathlib.Algebra.GroupWithZero.Nat

/-!
What the figures of a benchmark report mean, whatever the order of the walk.

The loop counts a chunk's bytes at the first occurrence of its ID.  Where equal
IDs have equal lengths, its totals are those of the set of distinct chunks,
which no order of the files can change.
-/

namespace Busyncr

open Percentile

/-- The chunks of a candidate over all files. -/
def chunksOf (candidate : Nat) (files : List FileChunking) : List ChunkMeta :=
  files.flatMap fun file => (file.perCandidate[candidate]?).getD []

def lengthsOf (chunks : List ChunkMeta) : List UInt64 := chunks.map ChunkMeta.len

def idsOf (chunks : List ChunkMeta) : Finset ChunkId := (chunks.map ChunkMeta.id).toFinset

/-- Equal chunk IDs have equal lengths. -/
def LengthsAgree (chunks : List ChunkMeta) : Prop :=
  ∀ first ∈ chunks, ∀ second ∈ chunks, first.id = second.id → first.len = second.len

/-- The manifest bytes of one file. -/
def manifestBytesOf (candidate : Nat) (file : FileChunking) : Nat :=
  manifestFileFixedBytes + (utf8Bytes file.relPath).length +
    ChunkId.len * ((file.perCandidate[candidate]?).getD []).length

def OneResultPerConfig (files : List FileChunking) (configs : List ChunkerConfig) : Prop :=
  ∀ file ∈ files, file.perCandidate.length = configs.length

/-- Chunked files as a process holds them.  A chunk takes 40 bytes in the
result of its file and 8 in the list of lengths, all within a 63-bit address
space. -/
structure ChunkedTree where
  files : List FileChunking
  held : ∀ candidate, 48 * (chunksOf candidate files).length < 2 ^ 63

section Tallies

namespace Tally

/-- The tally of the chunks seen so far. -/
structure Counts (tally : Tally) (seen : List ChunkMeta) : Prop where
  lens : tally.lens = lengthsOf seen
  unique : tally.unique = idsOf seen
  uniqueBytes : tally.uniqueBytes = UInt64.ofNat (∑ item ∈ seen.toFinset, item.len.toNat)

theorem counts_start : start.Counts [] := ⟨rfl, rfl, rfl⟩

theorem Counts.addChunk {tally : Tally} {seen : List ChunkMeta} {item : ChunkMeta}
    (counts : tally.Counts seen) (agree : LengthsAgree (seen ++ [item])) :
    (tally.addChunk item).Counts (seen ++ [item]) := by
  have extended : (seen ++ [item]).toFinset = insert item seen.toFinset := by
    ext other
    simp
  refine ⟨?_, ?_, ?_⟩
  · simp [Tally.addChunk, counts.lens, lengthsOf]
  · ext id
    simp [Tally.addChunk, counts.unique, idsOf]
  · simp only [Tally.addChunk, counts.unique, counts.uniqueBytes, extended]
    split
    next met =>
      obtain ⟨other, listed, same⟩ : ∃ other ∈ seen, other.id = item.id := by
        simpa [idsOf] using met
      have equal : other = item := by
        have lengths := agree other (by simp [listed]) item (by simp) same
        cases other
        cases item
        simp_all
      rw [Finset.insert_eq_of_mem (List.mem_toFinset.mpr (equal ▸ listed))]
    next fresh =>
      have absent : item ∉ seen.toFinset := by
        intro listed
        exact fresh (List.mem_toFinset.mpr (List.mem_map_of_mem (List.mem_toFinset.mp listed)))
      rw [Finset.sum_insert absent, UInt64.ofNat_add, UInt64.ofNat_toNat, UInt64.add_comm]

theorem LengthsAgree.of_append {seen later : List ChunkMeta}
    (agree : LengthsAgree (seen ++ later)) : LengthsAgree seen := by
  intro first firstSeen second secondSeen
  exact agree first (List.mem_append_left _ firstSeen) second (List.mem_append_left _ secondSeen)

theorem Counts.foldl {metas : List ChunkMeta} {tally : Tally} {seen : List ChunkMeta}
    (counts : tally.Counts seen) (agree : LengthsAgree (seen ++ metas)) :
    (metas.foldl Tally.addChunk tally).Counts (seen ++ metas) := by
  induction metas generalizing tally seen with
  | nil => simpa using counts
  | cons item rest inductionHypothesis =>
      rw [List.append_cons] at agree ⊢
      exact inductionHypothesis (counts.addChunk (LengthsAgree.of_append agree)) agree

theorem manifestBytes_foldl (metas : List ChunkMeta) (tally : Tally) :
    (metas.foldl Tally.addChunk tally).manifestBytes = tally.manifestBytes := by
  induction metas generalizing tally with
  | nil => rfl
  | cons item rest inductionHypothesis =>
      rw [List.foldl_cons, inductionHypothesis]
      rfl

/-- The loop over the files counts their manifest bytes. -/
theorem manifestBytes_addFiles {candidate : Nat} {files : List FileChunking} {tally last : Tally}
    (ran : tally.addFiles candidate files = some last) :
    last.manifestBytes =
      tally.manifestBytes + UInt64.ofNat ((files.map (manifestBytesOf candidate)).sum) := by
  induction files generalizing tally with
  | nil =>
      cases ran
      simp
  | cons file rest inductionHypothesis =>
      simp only [addFiles] at ran
      split at ran
      next => cases ran
      next metas found =>
        have cost : UInt64.ofNat (manifestBytesOf candidate file) =
            UInt64.ofNat manifestFileFixedBytes + UInt64.ofNat (utf8Bytes file.relPath).length +
              UInt64.ofNat ChunkId.len * UInt64.ofNat metas.length := by
          rw [manifestBytesOf, found, Option.getD_some, UInt64.ofNat_add, UInt64.ofNat_add,
            UInt64.ofNat_mul]
        simp only [inductionHypothesis ran, addFile, manifestBytes_foldl, List.map_cons,
          List.sum_cons, UInt64.ofNat_add, cost, UInt64.add_assoc]

/-- The loop over the files counts their chunks. -/
theorem addFiles_counts {candidate : Nat} {files : List FileChunking} {tally : Tally}
    {seen : List ChunkMeta} (present : ∀ file ∈ files, candidate < file.perCandidate.length)
    (counts : tally.Counts seen) (agree : LengthsAgree (seen ++ chunksOf candidate files)) :
    ∃ last, tally.addFiles candidate files = some last ∧
      last.Counts (seen ++ chunksOf candidate files) := by
  induction files generalizing tally seen with
  | nil => exact ⟨tally, rfl, by simpa [chunksOf] using counts⟩
  | cons file rest inductionHypothesis =>
      have inRange := present file List.mem_cons_self
      have found : file.perCandidate[candidate]? = some file.perCandidate[candidate] :=
        List.getElem?_eq_getElem inRange
      have chunks : chunksOf candidate (file :: rest) =
          file.perCandidate[candidate] ++ chunksOf candidate rest := by
        simp [chunksOf, found]
      rw [chunks, ← List.append_assoc] at agree ⊢
      have added : (tally.addFile file.relPath file.perCandidate[candidate]).Counts
          (seen ++ file.perCandidate[candidate]) :=
        Counts.foldl ⟨counts.lens, counts.unique, counts.uniqueBytes⟩
          (LengthsAgree.of_append agree)
      obtain ⟨last, ran, lastCounts⟩ := inductionHypothesis
        (fun other listed => present other (List.mem_cons_of_mem _ listed)) added agree
      refine ⟨last, ?_, lastCounts⟩
      simpa only [addFiles, found] using ran

end Tally

theorem pairwise_sortLens (lens : List UInt64) : (sortLens lens).Pairwise (· ≤ ·) := by
  have ordered : (sortLens lens).Pairwise fun left right => decide (left ≤ right) = true :=
    List.pairwise_mergeSort (by simpa using fun _ _ _ => UInt64.le_trans)
      (by simpa using UInt64.le_total) lens
  simpa using ordered

theorem sortLens_eq_of_perm {lens others : List UInt64} (permuted : lens.Perm others) :
    sortLens lens = sortLens others := by
  apply List.Perm.eq_of_pairwise (fun _ _ _ _ => UInt64.le_antisymm) (pairwise_sortLens lens)
    (pairwise_sortLens others)
  exact (perm_sortLens lens).trans (permuted.trans (perm_sortLens others).symm)

theorem Tally.Counts.same_of_perm {tally other : Tally} {seen others : List ChunkMeta}
    (counts : tally.Counts seen) (otherCounts : other.Counts others)
    (permuted : seen.Perm others) :
    tally.lens.Perm other.lens ∧ tally.unique = other.unique ∧
      tally.uniqueBytes = other.uniqueBytes := by
  refine ⟨?_, ?_, ?_⟩
  · rw [counts.lens, otherCounts.lens]
    exact permuted.map _
  · rw [counts.unique, otherCounts.unique]
    exact List.toFinset_eq_of_perm _ _ (permuted.map _)
  · rw [counts.uniqueBytes, otherCounts.uniqueBytes, List.toFinset_eq_of_perm _ _ permuted]

theorem foldl_lens (lens : List UInt64) :
    lens.foldl (fun total len => total + len) 0 = UInt64.ofNat ((lens.map UInt64.toNat).sum) := by
  simpa using Saturating.foldl_add_eq id lens 0

/-- A report reads the lengths only in order or in total. -/
theorem candidateReport_eq_of_perm {config : ChunkerConfig} {snapshots : UInt64}
    {tally other : Tally} {baseline : Option (Finset ChunkId)}
    (lens : tally.lens.Perm other.lens) (unique : tally.unique = other.unique)
    (uniqueBytes : tally.uniqueBytes = other.uniqueBytes)
    (manifestBytes : tally.manifestBytes = other.manifestBytes) :
    candidateReport config snapshots tally baseline =
      candidateReport config snapshots other baseline := by
  simp only [candidateReport, Tally.figures, sortLens_eq_of_perm lens, lens.length_eq, foldl_lens,
    (lens.map UInt64.toNat).sum_nat, unique, uniqueBytes, manifestBytes]

theorem foldl_insert_ids (metas : List ChunkMeta) (ids : Finset ChunkId) :
    metas.foldl (fun ids item => insert item.id ids) ids = ids ∪ idsOf metas := by
  induction metas generalizing ids with
  | nil => simp [idsOf]
  | cons item rest inductionHypothesis =>
      rw [List.foldl_cons, inductionHypothesis]
      simp [idsOf]

theorem collectIds_eq {candidate : Nat} {files : List FileChunking}
    (present : ∀ file ∈ files, candidate < file.perCandidate.length) (ids : Finset ChunkId) :
    collectIds candidate ids files = some (ids ∪ idsOf (chunksOf candidate files)) := by
  induction files generalizing ids with
  | nil => simp [collectIds, chunksOf, idsOf]
  | cons file rest inductionHypothesis =>
      have inRange := present file List.mem_cons_self
      have found : file.perCandidate[candidate]? = some file.perCandidate[candidate] :=
        List.getElem?_eq_getElem inRange
      have later : ∀ other ∈ rest, candidate < other.perCandidate.length :=
        fun other listed => present other (List.mem_cons_of_mem _ listed)
      simp only [collectIds, found]
      rw [inductionHypothesis later, foldl_insert_ids]
      simp [chunksOf, found, idsOf, Finset.union_assoc]

theorem uniqueIds_eq {candidate : Nat} {files : List FileChunking}
    (present : ∀ file ∈ files, candidate < file.perCandidate.length) :
    uniqueIds files candidate = some (idsOf (chunksOf candidate files)) := by
  rw [uniqueIds, collectIds_eq present, Finset.empty_union]

end Tallies

section Percentiles

/-- The index of the nearest rank is in range and holds the percentile. -/
theorem nearestRank_eq {sorted : List UInt64} (ordered : sorted.Pairwise (· ≤ ·))
    {percent : UInt64} (positive : 0 < percent.toNat) (most : percent.toNat ≤ 100)
    (fits : sorted.length * percent.toNat < 2 ^ 64) :
    ∃ value, nearestRank sorted percent = some value ∧
      (sorted ≠ [] → IsPercentile percent.toNat sorted value) := by
  cases sorted with
  | nil => exact ⟨0, rfl, by simp⟩
  | cons first rest =>
      generalize whole : first :: rest = sorted at ordered fits
      have nonempty : 0 < sorted.length := by
        rw [← whole]
        exact Nat.succ_pos _
      have long : sorted.length < 2 ^ 64 :=
        lt_of_le_of_lt (Nat.le_mul_of_pos_right _ positive) fits
      have product : (UInt64.ofNat sorted.length * percent).toNat =
          sorted.length * percent.toNat := by
        rw [UInt64.toNat_mul, UInt64.toNat_ofNat', Nat.mod_eq_of_lt long, Nat.mod_eq_of_lt fits]
      have ranked : (Saturating.divCeil (UInt64.ofNat sorted.length * percent) 100).toNat =
          rank percent.toNat sorted.length := by
        rw [Saturating.toNat_divCeil (by decide), product]
        rfl
      have low := rank_pos positive nonempty
      have high := rank_le most sorted.length
      have index : (max (Saturating.divCeil (UInt64.ofNat sorted.length * percent) 100) 1 -
          1).toNat = rank percent.toNat sorted.length - 1 := by
        rw [UInt64.toNat_sub_of_le, Saturating.toNat_max, ranked, UInt64.toNat_one]
        · omega
        · rw [UInt64.le_iff_toNat_le, Saturating.toNat_max]
          exact Nat.le_max_right _ _
      have bound : rank percent.toNat sorted.length - 1 < sorted.length := by omega
      refine ⟨sorted[rank percent.toNat sorted.length - 1], ?_, fun _ => ?_⟩
      · have filled : sorted.isEmpty = false := by simp [← whole]
        simp only [nearestRank, filled, index, List.getElem?_eq_getElem bound]
        rfl
      · exact isPercentile_getElem ordered (by omega) bound

end Percentiles

section Reports

/-- The chunks of the baseline, where there is one. -/
def baselineChunks (candidate : Nat) (baseline : Option (String × List FileChunking)) :
    Option (List ChunkMeta) :=
  baseline.map fun tree => chunksOf candidate tree.2

/-- Every figure of a report is what its name says of the chunks; sums of
bytes are taken modulo `2 ^ 64`. -/
structure CandidateReport.Exact (report : CandidateReport) (chunks : List ChunkMeta)
    (baseline : Option (List ChunkMeta)) : Prop where
  totalChunks : report.totalChunks.toNat = chunks.length
  totalBytes :
    report.totalBytes.toNat = ((lengthsOf chunks).map UInt64.toNat).sum % 2 ^ 64
  uniqueChunks : report.uniqueChunks.toNat = (idsOf chunks).card
  uniqueBytes :
    report.uniqueBytes.toNat = (∑ item ∈ chunks.toFinset, item.len.toNat) % 2 ^ 64
  indexBytes : report.indexBytes.toNat = 48 * report.uniqueChunks.toNat
  shared : (report.baseline.map fun overlap => overlap.sharedUniqueChunks.toNat) =
    baseline.map fun others => (idsOf chunks ∩ idsOf others).card
  median : chunks ≠ [] → IsPercentile 50 (lengthsOf chunks) report.medianChunkSize
  p95 : chunks ≠ [] → IsPercentile 95 (lengthsOf chunks) report.p95ChunkSize

theorem card_idsOf_le (chunks : List ChunkMeta) : (idsOf chunks).card ≤ chunks.length := by
  have few := List.toFinset_card_le (chunks.map ChunkMeta.id)
  rwa [List.length_map] at few

/-- The percentile of the sorted lengths is that of the chunks. -/
theorem nearestRank_sortLens {chunks : List ChunkMeta} (percent : UInt64)
    (positive : 0 < percent.toNat) (most : percent.toNat ≤ 95)
    (held : 48 * chunks.length < 2 ^ 63) :
    ∃ value, nearestRank (sortLens (lengthsOf chunks)) percent = some value ∧
      (chunks ≠ [] → IsPercentile percent.toNat (lengthsOf chunks) value) := by
  have permuted := perm_sortLens (lengthsOf chunks)
  have count : (sortLens (lengthsOf chunks)).length = chunks.length := by
    rw [permuted.length_eq, lengthsOf, List.length_map]
  have fits : (sortLens (lengthsOf chunks)).length * percent.toNat < 2 ^ 64 := by
    have product := Nat.mul_le_mul_left chunks.length most
    rw [count]
    omega
  obtain ⟨value, found, percentile⟩ := nearestRank_eq (pairwise_sortLens _) positive
    (by omega) fits
  refine ⟨value, found, fun nonempty => (percentile ?_).perm permuted⟩
  rw [← List.length_pos_iff, count]
  exact List.length_pos_iff.mpr nonempty

theorem candidateReport_exact {chunks : List ChunkMeta} {tally : Tally}
    (counts : tally.Counts chunks) (held : 48 * chunks.length < 2 ^ 63)
    (config : ChunkerConfig) (snapshots : UInt64) (baseline : Option (List ChunkMeta)) :
    ∃ report, candidateReport config snapshots tally (baseline.map idsOf) = some report ∧
      report.Exact chunks baseline := by
  obtain ⟨median, medianFound, medianExact⟩ :=
    nearestRank_sortLens 50 (by decide) (by decide) held
  obtain ⟨p95, p95Found, p95Exact⟩ :=
    nearestRank_sortLens 95 (by decide) (by decide) held
  have few := card_idsOf_le chunks
  have small : (idsOf chunks).card < 2 ^ 64 := by omega
  have record : IndexEntry.wireSize = 48 := rfl
  refine ⟨tally.figures config snapshots (baseline.map idsOf) median p95, ?_, ?_⟩
  · simp only [candidateReport, counts.lens, medianFound, p95Found]
  constructor
  · simp only [Tally.figures, counts.lens, lengthsOf, List.length_map, UInt64.toNat_ofNat']
    omega
  · simp only [Tally.figures, counts.lens, foldl_lens, UInt64.toNat_ofNat']
  · simp only [Tally.figures, counts.unique, UInt64.toNat_ofNat', Nat.mod_eq_of_lt small]
  · simp only [Tally.figures, counts.uniqueBytes, UInt64.toNat_ofNat']
  · simp only [Tally.figures, counts.unique, record, UInt64.toNat_mul, UInt64.toNat_ofNat',
      Nat.mod_eq_of_lt small]
    omega
  · cases baseline with
    | none => rfl
    | some others =>
        have fewer : (idsOf chunks ∩ idsOf others).card ≤ (idsOf chunks).card :=
          Finset.card_le_card Finset.inter_subset_left
        simp only [Tally.figures, Option.map_some, baselineOverlap, counts.unique,
          UInt64.toNat_ofNat', Option.some.injEq]
        omega
  · exact medianExact
  · exact p95Exact

/-- The same baseline, its files in another order. -/
def BaselinePerm : Option (String × List FileChunking) → Option (String × List FileChunking) →
    Prop :=
  Option.Rel fun tree other => tree.1 = other.1 ∧ tree.2.Perm other.2

/-- Every file of the tree and of the baseline has a result for the candidate. -/
def Present (candidate : Nat) (files : List FileChunking)
    (baseline : Option (String × List FileChunking)) : Prop :=
  (∀ file ∈ files, candidate < file.perCandidate.length) ∧
    ∀ tree ∈ baseline, ∀ file ∈ tree.2, candidate < file.perCandidate.length

variable {candidate : Nat} {files others : List FileChunking}
  {baseline other : Option (String × List FileChunking)}

theorem Present.perm (present : Present candidate files baseline) (permuted : files.Perm others)
    (basePermuted : BaselinePerm baseline other) : Present candidate others other := by
  refine ⟨fun file listed => present.1 file (permuted.mem_iff.mpr listed), ?_⟩
  cases basePermuted with
  | none => simp
  | some related =>
      rintro tree ⟨⟩ file listed
      exact present.2 _ rfl file (related.2.mem_iff.mpr listed)

theorem baselineIds_eq (present : Present candidate files baseline) :
    baselineIds candidate baseline = some ((baselineChunks candidate baseline).map idsOf) := by
  cases baseline with
  | none => rfl
  | some tree =>
      simp only [baselineIds, uniqueIds_eq (present.2 tree rfl)]
      rfl

theorem LengthsAgree.perm {chunks permutedChunks : List ChunkMeta} (agree : LengthsAgree chunks)
    (permuted : chunks.Perm permutedChunks) : LengthsAgree permutedChunks := by
  intro first firstListed second secondListed
  exact agree first (permuted.mem_iff.mpr firstListed) second (permuted.mem_iff.mpr secondListed)

theorem measureCandidate_exact {tree : ChunkedTree} (present : Present candidate tree.files baseline)
    (agree : LengthsAgree (chunksOf candidate tree.files)) (snapshots : UInt64)
    (config : ChunkerConfig) :
    ∃ report, measureCandidate tree.files snapshots baseline candidate config = some report ∧
      report.Exact (chunksOf candidate tree.files) (baselineChunks candidate baseline) := by
  obtain ⟨tally, ran, counts⟩ := Tally.addFiles_counts present.1 Tally.counts_start agree
  obtain ⟨report, reported, exact_⟩ := candidateReport_exact counts (tree.held candidate) config
    snapshots (baselineChunks candidate baseline)
  refine ⟨report, ?_, exact_⟩
  simp only [measureCandidate, ran, baselineIds_eq present, reported]

/-- The order of the files does not matter to a candidate's report. -/
theorem measureCandidate_perm (present : Present candidate files baseline)
    (agree : LengthsAgree (chunksOf candidate files)) (permuted : files.Perm others)
    (basePermuted : BaselinePerm baseline other) (snapshots : UInt64) (config : ChunkerConfig) :
    measureCandidate files snapshots baseline candidate config =
      measureCandidate others snapshots other candidate config := by
  have chunks : (chunksOf candidate files).Perm (chunksOf candidate others) :=
    permuted.flatMap_right _
  have otherPresent := present.perm permuted basePermuted
  obtain ⟨tally, ran, counts⟩ := Tally.addFiles_counts present.1 Tally.counts_start agree
  obtain ⟨otherTally, otherRan, otherCounts⟩ :=
    Tally.addFiles_counts otherPresent.1 Tally.counts_start (agree.perm chunks)
  have ids : (baselineChunks candidate baseline).map idsOf =
      (baselineChunks candidate other).map idsOf := by
    cases basePermuted with
    | none => rfl
    | some related =>
        have same : idsOf (chunksOf candidate _) = idsOf (chunksOf candidate _) :=
          List.toFinset_eq_of_perm _ _ ((related.2.flatMap_right _).map _)
        exact congrArg some same
  have manifestBytes : tally.manifestBytes = otherTally.manifestBytes := by
    rw [Tally.manifestBytes_addFiles ran, Tally.manifestBytes_addFiles otherRan,
      (permuted.map _).sum_nat]
  obtain ⟨lens, unique, uniqueBytes⟩ := counts.same_of_perm otherCounts chunks
  simp only [measureCandidate, ran, otherRan, baselineIds_eq present, baselineIds_eq otherPresent,
    ids]
  exact candidateReport_eq_of_perm lens unique uniqueBytes manifestBytes

/-- The loop over the candidates collects one report for each of them. -/
theorem measureCandidates_all {snapshots : UInt64} (holds : Nat → CandidateReport → Prop)
    {configs : List ChunkerConfig} {first : Nat}
    (each : ∀ index config, index < configs.length → ∃ report,
      measureCandidate files snapshots baseline (first + index) config = some report ∧
        holds (first + index) report) :
    ∃ reports, measureCandidates files snapshots baseline first configs = some reports ∧
      reports.length = configs.length ∧
      ∀ index report, reports[index]? = some report → holds (first + index) report := by
  induction configs generalizing first with
  | nil => exact ⟨[], rfl, rfl, by simp⟩
  | cons config rest inductionHypothesis =>
      obtain ⟨report, measured, good⟩ := each 0 config (Nat.succ_pos _)
      obtain ⟨reports, ran, count, all⟩ := @inductionHypothesis (first + 1) (by
        intro index later small
        have next := each (index + 1) later (by simpa using small)
        rwa [← Nat.add_assoc, Nat.add_right_comm] at next)
      refine ⟨report :: reports, ?_, by simp [count], ?_⟩
      · simp only [Nat.add_zero] at measured
        simp only [measureCandidates, measured, ran]
      · intro index found listed
        cases index with
        | zero =>
            cases listed
            exact good
        | succ index =>
            have next := all index found listed
            rwa [Nat.add_right_comm, Nat.add_assoc] at next

theorem measureCandidates_congr {snapshots : UInt64} {configs : List ChunkerConfig} {first : Nat}
    (same : ∀ index config, index < configs.length →
      measureCandidate files snapshots baseline (first + index) config =
        measureCandidate others snapshots other (first + index) config) :
    measureCandidates files snapshots baseline first configs =
      measureCandidates others snapshots other first configs := by
  induction configs generalizing first with
  | nil => rfl
  | cons config rest inductionHypothesis =>
      have head := same 0 config (Nat.succ_pos _)
      have tail := @inductionHypothesis (first + 1) (by
        intro index later small
        have next := same (index + 1) later (by simpa using small)
        rwa [← Nat.add_assoc, Nat.add_right_comm] at next)
      simp only [Nat.add_zero] at head
      simp only [measureCandidates, head, tail]

/-- The report of a candidate has the figures of what the loop counted. -/
theorem figures_of_measureCandidates {snapshots : UInt64} {configs : List ChunkerConfig}
    {first : Nat} {reports : List CandidateReport}
    (measured : measureCandidates files snapshots baseline first configs = some reports)
    {index : Nat} {report : CandidateReport} (listed : reports[index]? = some report) :
    ∃ config tally ids median p95, configs[index]? = some config ∧
      Tally.start.addFiles (first + index) files = some tally ∧
      report = tally.figures config snapshots ids median p95 := by
  induction configs generalizing first reports index with
  | nil =>
      cases measured
      simp at listed
  | cons config rest inductionHypothesis =>
      simp only [measureCandidates] at measured
      split at measured
      next => cases measured
      next head headMeasured =>
        split at measured
        next => cases measured
        next tail tailMeasured =>
          cases measured
          cases index with
          | zero =>
              cases listed
              simp only [measureCandidate, candidateReport] at headMeasured
              grind
          | succ index =>
              rw [List.getElem?_cons_succ] at listed
              obtain ⟨later, tally, ids, median, p95, chosen, ran, same⟩ :=
                inductionHypothesis tailMeasured listed
              refine ⟨later, tally, ids, median, p95, chosen, ?_, same⟩
              rwa [Nat.add_right_comm, Nat.add_assoc] at ran

theorem figures_of_buildReport {IoError : Type} {root : String} {snapshots : UInt64}
    {configs : List ChunkerConfig} {report : BenchReport}
    (built : (buildReport root files configs snapshots baseline :
      Option (Except (BenchError IoError) BenchReport)) = some (.ok report))
    {measured : CandidateReport} (listed : report.candidates[candidate]? = some measured) :
    ∃ config tally ids median p95, configs[candidate]? = some config ∧
      Tally.start.addFiles candidate files = some tally ∧
      measured = tally.figures config snapshots ids median p95 := by
  unfold buildReport at built
  split at built
  next => cases built
  next =>
    split at built
    next => cases built
    next =>
      split at built
      next => cases built
      next candidates ran =>
        cases built
        simpa only [Nat.zero_add] using figures_of_measureCandidates ran listed

theorem checkCandidateCounts_ok {IoError : Type} {configs : List ChunkerConfig}
    (counted : OneResultPerConfig files configs) :
    (checkCandidateCounts configs.length files : Except (BenchError IoError) Unit) = .ok () := by
  induction files with
  | nil => rfl
  | cons file rest inductionHypothesis =>
      have here := counted file List.mem_cons_self
      have later := inductionHypothesis fun other listed =>
        counted other (List.mem_cons_of_mem _ listed)
      simp [checkCandidateCounts, here, later]

theorem Present.of_counted {configs : List ChunkerConfig}
    (counted : OneResultPerConfig files configs)
    (baselineCounted : ∀ tree ∈ baseline, OneResultPerConfig tree.2 configs)
    (small : candidate < configs.length) : Present candidate files baseline := by
  refine ⟨fun file listed => ?_, fun tree given file listed => ?_⟩
  · rwa [counted file listed]
  · rwa [baselineCounted tree given file listed]

theorem BaselinePerm.counted {configs : List ChunkerConfig}
    (baselineCounted : ∀ tree ∈ baseline, OneResultPerConfig tree.2 configs)
    (basePermuted : BaselinePerm baseline other) :
    ∀ tree ∈ other, OneResultPerConfig tree.2 configs := by
  cases basePermuted with
  | none => simp
  | some related =>
      rintro tree ⟨⟩ file listed
      exact baselineCounted _ rfl file (related.2.mem_iff.mpr listed)

theorem checkBaseline_ok {IoError : Type} {configs : List ChunkerConfig}
    (baselineCounted : ∀ tree ∈ baseline, OneResultPerConfig tree.2 configs) :
    (checkBaseline configs.length baseline : Except (BenchError IoError) Unit) = .ok () := by
  cases baseline with
  | none => rfl
  | some tree => exact checkCandidateCounts_ok (baselineCounted tree rfl)

theorem BaselinePerm.refl (baseline : Option (String × List FileChunking)) :
    BaselinePerm baseline baseline := by
  cases baseline with
  | none => exact .none
  | some tree => exact .some ⟨rfl, .refl _⟩

theorem BaselinePerm.root_eq (basePermuted : BaselinePerm baseline other) :
    baseline.map Prod.fst = other.map Prod.fst := by
  cases basePermuted with
  | none => rfl
  | some related => exact congrArg some related.1

/-- The order of the files does not matter to the whole report. -/
theorem buildReport_perm {IoError : Type} {root : String} {configs : List ChunkerConfig}
    {snapshots : UInt64} (counted : OneResultPerConfig files configs)
    (baselineCounted : ∀ tree ∈ baseline, OneResultPerConfig tree.2 configs)
    (agree : ∀ candidate, LengthsAgree (chunksOf candidate files)) (permuted : files.Perm others)
    (basePermuted : BaselinePerm baseline other) :
    (buildReport root files configs snapshots baseline :
        Option (Except (BenchError IoError) BenchReport)) =
      buildReport root others configs snapshots other := by
  have otherCounted : OneResultPerConfig others configs :=
    fun file listed => counted file (permuted.mem_iff.mpr listed)
  have measured : measureCandidates files snapshots baseline 0 configs =
      measureCandidates others snapshots other 0 configs := by
    apply measureCandidates_congr
    intro index config small
    have present : Present (0 + index) files baseline :=
      .of_counted counted baselineCounted (by omega)
    exact measureCandidate_perm present (agree _) permuted basePermuted snapshots config
  have bytes : files.foldl (fun total file => total + file.fileBytes) 0 =
      others.foldl (fun total file => total + file.fileBytes) 0 := by
    rw [Saturating.foldl_add_eq FileChunking.fileBytes files,
      Saturating.foldl_add_eq FileChunking.fileBytes others, (permuted.map _).sum_nat]
  simp only [buildReport, checkCandidateCounts_ok counted, checkCandidateCounts_ok otherCounted,
    checkBaseline_ok baselineCounted, checkBaseline_ok (basePermuted.counted baselineCounted),
    measured, bytes, permuted.length_eq, basePermuted.root_eq]

/-- A report exists, is exact, and is the same for every order of the files
and of the baseline's files. -/
theorem bench_report_is_exact (IoError : Type) (root : String) (tree : ChunkedTree)
    (configs : List ChunkerConfig) (snapshots : UInt64)
    (baseline : Option (String × List FileChunking))
    (counted : OneResultPerConfig tree.files configs)
    (baselineCounted : ∀ base ∈ baseline, OneResultPerConfig base.2 configs)
    (agree : ∀ candidate, LengthsAgree (chunksOf candidate tree.files)) :
    ∃ report : BenchReport,
      (buildReport root tree.files configs snapshots baseline :
        Option (Except (BenchError IoError) BenchReport)) = some (.ok report) ∧
      (∀ others other, tree.files.Perm others → BaselinePerm baseline other →
        (buildReport root others configs snapshots other :
          Option (Except (BenchError IoError) BenchReport)) = some (.ok report)) ∧
      report.candidates.length = configs.length ∧
      ∀ candidate (measured : CandidateReport), report.candidates[candidate]? = some measured →
        measured.Exact (chunksOf candidate tree.files) (baselineChunks candidate baseline) := by
  have each : ∀ index config, index < configs.length → ∃ measured,
      measureCandidate tree.files snapshots baseline (0 + index) config = some measured ∧
        measured.Exact (chunksOf (0 + index) tree.files)
          (baselineChunks (0 + index) baseline) := by
    intro index config small
    have present : Present (0 + index) tree.files baseline :=
      .of_counted counted baselineCounted (by omega)
    exact measureCandidate_exact present (agree _) snapshots config
  obtain ⟨reports, ran, count, exactly⟩ := measureCandidates_all
    (fun candidate measured =>
      measured.Exact (chunksOf candidate tree.files) (baselineChunks candidate baseline)) each
  have built : ∃ report : BenchReport,
      (buildReport root tree.files configs snapshots baseline :
        Option (Except (BenchError IoError) BenchReport)) = some (.ok report) ∧
      report.candidates = reports := by
    simp only [buildReport, checkCandidateCounts_ok counted, checkBaseline_ok baselineCounted, ran]
    exact ⟨_, rfl, rfl⟩
  obtain ⟨report, made, rfl⟩ := built
  refine ⟨report, made, ?_, count, ?_⟩
  · intro others other permuted basePermuted
    rw [← buildReport_perm counted baselineCounted agree permuted basePermuted, made]
  · intro candidate measured listed
    have good := exactly candidate measured listed
    rwa [Nat.zero_add] at good

def benchConfig : ChunkerConfig where
  minSize := 1024
  targetSize := 4096
  maxSize := 16384
  minLeTarget := by decide
  targetLeMax := by decide

/-- Two files with a chunk in common. -/
def benchFiles : List FileChunking :=
  let shared : ChunkMeta := ⟨⟨Vector.replicate 32 1⟩, 4096⟩
  [⟨"a.txt", 4096, [[shared]]⟩,
    ⟨"b.txt", 6144, [[⟨⟨Vector.replicate 32 2⟩, 2048⟩, shared]]⟩]

def benchTree : ChunkedTree where
  files := benchFiles
  held := by
    intro candidate
    cases candidate with
    | zero => decide
    | succ later =>
        rw [show chunksOf (later + 1) benchFiles = [] from rfl]
        decide

theorem bench_report_of_two_files :
    ∃ report : BenchReport,
      (∀ others, benchFiles.Perm others →
        (buildReport "root" others [benchConfig] 36 (some ("base", benchFiles)) :
          Option (Except (BenchError Unit) BenchReport)) = some (.ok report)) ∧
      report.candidates.map CandidateReport.uniqueChunks = [2] := by
  have counted : OneResultPerConfig benchFiles [benchConfig] := by
    unfold OneResultPerConfig
    decide
  have agree : ∀ candidate, LengthsAgree (chunksOf candidate benchTree.files) := by
    intro candidate
    cases candidate with
    | zero =>
        unfold LengthsAgree
        decide
    | succ later =>
        rw [show chunksOf (later + 1) benchTree.files = [] from rfl]
        simp [LengthsAgree]
  have baselineCounted : ∀ base ∈ some ("base", benchFiles),
      OneResultPerConfig base.2 [benchConfig] := by
    rintro base ⟨⟩
    exact counted
  obtain ⟨report, -, same, count, exactly⟩ := bench_report_is_exact Unit "root" benchTree
    [benchConfig] 36 (some ("base", benchFiles)) counted baselineCounted agree
  refine ⟨report, fun others permuted => same others _ permuted (.refl _), ?_⟩
  obtain ⟨measured, only⟩ := List.length_eq_one_iff.mp count
  have figures := exactly 0 measured (by rw [only]; rfl)
  have distinct : (idsOf (chunksOf 0 benchTree.files)).card = 2 := by decide
  rw [only, List.map_singleton, List.singleton_inj, ← UInt64.toNat_inj, figures.uniqueChunks,
    distinct]
  rfl

end Reports

end Busyncr
