import Busyncr.Core.PolicyAccounts
import Mathlib.Data.Rat.Cast.Order
import Mathlib.Algebra.Order.Archimedean.Basic
import Mathlib.Tactic.Linarith

/-!
When the stored payload can be longer than the data.

The thresholds are read exactly here, as rationals or infinities.  zstd may
return more than it was given; only the keep-threshold stands between such a
result and the store.
-/

namespace Busyncr

/-- A configured threshold, read exactly. -/
inductive ExactThreshold where
  | negInfinity
  | rational (value : ℚ)
  | infinity
deriving DecidableEq

def ExactThreshold.AtMostOne : ExactThreshold → Prop
  | .negInfinity => True
  | .rational value => value ≤ 1
  | .infinity => False

/-- The comparisons without rounding; a quotient by zero is infinite. -/
def exactTests : LengthTests ExactThreshold where
  ratioBelow length other
    | .negInfinity => false
    | .rational value => decide ((length : ℚ) / other < value)
    | .infinity => true
  exceedsScaled length other
    | .negInfinity => decide (0 < other)
    | .rational value => decide (other * value < (length : ℚ))
    | .infinity => false
  ratioReaches length other
    | .negInfinity => decide (0 < length ∨ 0 < other)
    | .rational value => decide (if other = 0 then 0 < length else value ≤ (length : ℚ) / other)
    | .infinity => decide (other = 0 ∧ 0 < length)

def exactConstants : ThresholdConstants ExactThreshold where
  zero := .rational 0
  infinity := .infinity
  defaultKeepThreshold := .rational (95 / 100)
  defaultProbeThreshold := .rational (102 / 100)
  defaultEscalateRatio := .rational 2

/-- The difference of the counters, at least zero. -/
def PolicyCounters.bytesSaved (counters : PolicyCounters) : UInt64 :=
  if counters.bytesOut ≤ counters.bytesIn then counters.bytesIn - counters.bytesOut else 0

/-- Under these settings no run stores more than it read, whatever the
compressors return, and while the counters hold the totals they say so. -/
def NeverExpands (config : PolicyConfig ExactThreshold) : Prop :=
  ∀ (compressors : Compressors) (calls : List (PolicyCall ExactThreshold)),
    (∀ call ∈ calls, call.config = config) →
      ((runCalls compressors exactTests calls .zero).1.map fun chosen => chosen.2.length).sum ≤
          (calls.map fun call => call.chunk.length).sum ∧
        ((calls.map fun call => call.chunk.length).sum < 2 ^ 64 →
          (runCalls compressors exactTests calls .zero).2.bytesOut ≤
              (runCalls compressors exactTests calls .zero).2.bytesIn ∧
            (runCalls compressors exactTests calls .zero).2.bytesSaved.toNat =
              (calls.map fun call => call.chunk.length).sum -
                ((runCalls compressors exactTests calls .zero).1.map fun chosen =>
                  chosen.2.length).sum)

section Bounded

variable {compressors : Compressors} {call : PolicyCall ExactThreshold}

theorem length_le_of_not_exceeds {threshold : ExactThreshold} {length other : Nat}
    (atMostOne : threshold.AtMostOne) (nonempty : 0 < other)
    (kept : exactTests.exceedsScaled length other threshold = false) : length ≤ other := by
  cases threshold with
  | negInfinity => simp [exactTests, nonempty] at kept
  | infinity => cases atMostOne
  | rational value =>
      have bounded : (length : ℚ) ≤ other * value := by simpa [exactTests] using kept
      have scaled : (other : ℚ) * value ≤ other * 1 := by
        apply mul_le_mul_of_nonneg_left atMostOne
        exact Nat.cast_nonneg other
      rw [mul_one] at scaled
      exact_mod_cast bounded.trans scaled

/-- The settings under which a longer result is never kept. -/
def PolicyConfig.Caps (config : PolicyConfig ExactThreshold) : Prop :=
  config.keepThreshold.AtMostOne ∨ config.useProbe = true ∧ config.probeThreshold = .infinity

theorem Baseline.length_le {zstd3 : Bytes} (baseline : Baseline compressors exactTests call zstd3)
    (caps : call.config.Caps) : zstd3.length ≤ call.chunk.length := by
  obtain atMostOne | ⟨probes, infinite⟩ := caps
  · exact length_le_of_not_exceeds atMostOne (List.length_pos_iff.mpr baseline.nonempty)
      baseline.kept
  · have rejected : probeRejects compressors exactTests call.config call.chunk = true := by
      simp [probeRejects, probes, infinite, exactTests]
    rw [baseline.passed] at rejected
    cases rejected

theorem Outcome.length_le {chosen : CodecId × Bytes} {spent : PolicyCounters}
    (outcome : Outcome compressors exactTests call chosen spent) (caps : call.config.Caps) :
    chosen.2.length ≤ call.chunk.length := by
  cases outcome with
  | raw => exact Nat.le_refl _
  | baseline baseline => exact baseline.length_le caps
  | discarded baseline => exact baseline.length_le caps
  | escalated baseline _ shorter => exact shorter.le.trans (baseline.length_le caps)

theorem sum_returned_le (compressors : Compressors) {calls : List (PolicyCall ExactThreshold)}
    (caps : ∀ call ∈ calls, call.config.Caps) (counters : PolicyCounters) :
    ((runCalls compressors exactTests calls counters).1.map fun chosen => chosen.2.length).sum ≤
      (calls.map fun call => call.chunk.length).sum := by
  induction calls generalizing counters with
  | nil => exact Nat.le_refl _
  | cons call rest inductionHypothesis =>
      obtain ⟨chosen, spent, outcome, chose⟩ := outcome_choose compressors exactTests call counters
      have first := outcome.length_le (caps call List.mem_cons_self)
      have later := inductionHypothesis (fun other member =>
        caps other (List.mem_cons_of_mem _ member)) (counters.add spent)
      simpa [runCalls, chose] using Nat.add_le_add first later

theorem PolicyCounters.toNat_bytesSaved {counters : PolicyCounters}
    (bounded : counters.bytesOut ≤ counters.bytesIn) :
    counters.bytesSaved.toNat = counters.bytesIn.toNat - counters.bytesOut.toNat := by
  simp only [bytesSaved, if_pos bounded]
  exact UInt64.toNat_sub_of_le _ _ bounded

theorem neverExpands_of_caps {config : PolicyConfig ExactThreshold} (caps : config.Caps) :
    NeverExpands config := by
  intro compressors calls configured
  have bounded := sum_returned_le compressors
    (fun call member => (configured call member).symm ▸ caps) .zero
  refine ⟨bounded, fun fits => ?_⟩
  obtain ⟨totals, counted, account⟩ := exists_totals_runCalls compressors exactTests calls .zero
  rw [PolicyCounters.zero_add] at counted
  have read : (runCalls compressors exactTests calls .zero).2.bytesIn.toNat =
      (calls.map fun call => call.chunk.length).sum := by
    rw [counted, Totals.counters, UInt64.toNat_ofNat', account.bytesIn]
    exact Nat.mod_eq_of_lt fits
  have stored : (runCalls compressors exactTests calls .zero).2.bytesOut.toNat =
      ((runCalls compressors exactTests calls .zero).1.map fun chosen =>
        chosen.2.length).sum := by
    rw [counted, Totals.counters, UInt64.toNat_ofNat', account.bytesOut]
    exact Nat.mod_eq_of_lt (Nat.lt_of_le_of_lt bounded fits)
  have ordered : (runCalls compressors exactTests calls .zero).2.bytesOut ≤
      (runCalls compressors exactTests calls .zero).2.bytesIn := by
    rw [UInt64.le_iff_toNat_le, read, stored]
    exact bounded
  exact ⟨ordered, by rw [PolicyCounters.toNat_bytesSaved ordered, read, stored]⟩

end Bounded

/-- A zstd that adds a byte to whatever it is given. -/
def growingCompressors : Compressors where
  zstdEncode data _ := some (0 :: data)
  zstdDecode data := some data.tail
  lz4Len _ := 0

theorem exists_length_kept {threshold : ExactThreshold} (exceedsOne : ¬ threshold.AtMostOne) :
    ∃ enough, ∀ length, enough ≤ length →
      exactTests.exceedsScaled (length + 1) length threshold = false := by
  cases threshold with
  | negInfinity => exact absurd trivial exceedsOne
  | infinity => exact ⟨0, fun _ _ => rfl⟩
  | rational value =>
      have above : 0 < value - 1 := sub_pos.mpr (not_le.mp exceedsOne)
      obtain ⟨enough, reaches⟩ := exists_nat_gt (1 / (value - 1))
      refine ⟨enough, fun length long => ?_⟩
      have gained : 1 ≤ (length : ℚ) * (value - 1) := by
        have ratio : 1 / (value - 1) ≤ (length : ℚ) :=
          reaches.le.trans (Nat.cast_le.mpr long)
        exact (div_le_iff₀ above).mp ratio
      simp only [exactTests, decide_eq_false_iff_not, not_lt]
      push_cast
      linarith

theorem exists_length_passed {threshold : ExactThreshold} (finite : threshold ≠ .infinity) :
    ∃ enough, ∀ length, enough ≤ length → exactTests.ratioBelow length 1 threshold = false := by
  cases threshold with
  | negInfinity => exact ⟨0, fun _ _ => rfl⟩
  | infinity => exact absurd rfl finite
  | rational value =>
      obtain ⟨enough, reaches⟩ := exists_nat_gt value
      refine ⟨enough, fun length long => ?_⟩
      have reached : value ≤ (length : ℚ) := reaches.le.trans (Nat.cast_le.mpr long)
      simpa [exactTests] using reached

/-- The retry of the growing compressor is as long as the baseline, which stays. -/
theorem choose_growing (call : PolicyCall ExactThreshold) (counters : PolicyCounters)
    (nonempty : call.chunk ≠ [])
    (passed : probeRejects growingCompressors exactTests call.config call.chunk = false)
    (kept : exactTests.exceedsScaled (call.chunk.length + 1) call.chunk.length
      call.config.keepThreshold = false) :
    (call.choose growingCompressors exactTests counters).1 = (.zstd, 0 :: call.chunk) := by
  have compressed : ∀ level, compressZstd growingCompressors call.chunk level =
      .ok (0 :: call.chunk) := fun _ => rfl
  simp only [PolicyCall.choose, chooseCodec, nonempty, passed, compressed, List.length_cons, kept,
    if_false, Bool.false_eq_true]
  split
  next => simp [escalateOver, compressed, keepBaseline]
  next => rfl

theorem caps_of_neverExpands {config : PolicyConfig ExactThreshold}
    (never : NeverExpands config) : config.Caps := by
  by_contra uncapped
  obtain ⟨exceedsOne, unprobed⟩ := not_or.mp uncapped
  obtain ⟨keeps, kept⟩ := exists_length_kept exceedsOne
  have passable : ∃ enough, ∀ length, enough ≤ length → probeRejects growingCompressors exactTests
      config (List.replicate length 0) = false := by
    by_cases probes : config.useProbe = true
    · obtain ⟨enough, passed⟩ :=
        exists_length_passed fun infinite => unprobed ⟨probes, infinite⟩
      exact ⟨enough, fun length long => by
        simp [probeRejects, growingCompressors, passed length long]⟩
    · exact ⟨0, fun length _ => by simp [probeRejects, probes]⟩
  obtain ⟨passes, passed⟩ := passable
  have grown := choose_growing ⟨List.replicate (keeps + passes + 1) 0, .initialFull, config⟩ .zero
    (by simp) (passed _ (by omega)) (by simpa using kept (keeps + passes + 1) (by omega))
  have bounded := (never growingCompressors
    [⟨List.replicate (keeps + passes + 1) 0, .initialFull, config⟩] (by simp)).1
  simp [runCalls, grown] at bounded

/-- Nothing is stored longer than it was read, for every run of every
compressor, exactly when the settings cap the result. -/
theorem neverExpands_iff (config : PolicyConfig ExactThreshold) :
    NeverExpands config ↔ config.keepThreshold.AtMostOne ∨
      config.useProbe = true ∧ config.probeThreshold = .infinity :=
  ⟨caps_of_neverExpands, neverExpands_of_caps⟩

/-- The simulated policy that always compresses stores a one-byte chunk as ten
bytes, and reports nothing saved. -/
theorem zstd3Always_expands :
    ¬ NeverExpands (PolicyKind.config exactConstants .zstd3Always) ∧
      (simulatePolicy exactConstants storingCompressors exactTests [[97]] .zstd3Always
        .initialFull).bytesIn = 1 ∧
      (simulatePolicy exactConstants storingCompressors exactTests [[97]] .zstd3Always
        .initialFull).bytesOut = 10 ∧
      (countChunks storingCompressors exactTests .initialFull
        (PolicyKind.config exactConstants .zstd3Always) .zero [[97]]).bytesSaved = 0 := by
  refine ⟨?_, by decide +kernel, by decide +kernel, by decide +kernel⟩
  intro never
  have bounded := (never storingCompressors
    [⟨[97], .initialFull, PolicyKind.config exactConstants .zstd3Always⟩] (by simp)).1
  revert bounded
  decide +kernel

end Busyncr
