import Busyncr.Core.PolicyBench

/-!
What the policy's counters say after any sequence of chunks.

Every exit of the policy is one of three outcomes: the chunk is stored as it
is, the baseline result is kept, or the retry at the higher level is.  The
counters are sums over the outcomes, whatever phases and settings the calls
came with.
-/

namespace Busyncr

/-- One call of the policy. -/
structure PolicyCall (Threshold : Type) where
  chunk : Bytes
  phase : Phase
  config : PolicyConfig Threshold

/-- The baseline result the policy goes on with: the probe let the chunk pass,
and zstd did well enough to be kept. -/
structure Baseline {Threshold : Type} (compressors : Compressors) (tests : LengthTests Threshold)
    (call : PolicyCall Threshold) (zstd3 : Bytes) : Prop where
  nonempty : call.chunk ≠ []
  passed : probeRejects compressors tests call.config call.chunk = false
  compressed : compressZstd compressors call.chunk call.config.zstdLevel = .ok zstd3
  kept : tests.exceedsScaled zstd3.length call.chunk.length call.config.keepThreshold = false

/-- How one call ends: what it returns, and what it adds to the counters. -/
inductive Outcome {Threshold : Type} (compressors : Compressors) (tests : LengthTests Threshold)
    (call : PolicyCall Threshold) : CodecId × Bytes → PolicyCounters → Prop
  | raw :
      Outcome compressors tests call (.raw, call.chunk)
        ⟨1, 0, 0, 0, .ofNat call.chunk.length, .ofNat call.chunk.length⟩
  | baseline {zstd3 : Bytes} (baseline : Baseline compressors tests call zstd3) :
      Outcome compressors tests call (.zstd, zstd3)
        ⟨0, 1, 0, 0, .ofNat call.chunk.length, .ofNat zstd3.length⟩
  | discarded {zstd3 : Bytes} (baseline : Baseline compressors tests call zstd3)
      (later : call.phase = .incremental) :
      Outcome compressors tests call (.zstd, zstd3)
        ⟨0, 1, 0, 1, .ofNat call.chunk.length, .ofNat zstd3.length⟩
  | escalated {zstd3 zstd9 : Bytes} (baseline : Baseline compressors tests call zstd3)
      (later : call.phase = .incremental) (shorter : zstd9.length < zstd3.length) :
      Outcome compressors tests call (.zstd, zstd9)
        ⟨0, 0, 1, 1, .ofNat call.chunk.length, .ofNat zstd9.length⟩

section Outcomes

variable {Threshold : Type} (compressors : Compressors) (tests : LengthTests Threshold)

def PolicyCall.choose (call : PolicyCall Threshold) (counters : PolicyCounters) :
    (CodecId × Bytes) × PolicyCounters :=
  chooseCodec compressors tests call.chunk call.phase call.config counters

/-- The calls one after another, over one value of the counters. -/
def runCalls : List (PolicyCall Threshold) → PolicyCounters →
    List (CodecId × Bytes) × PolicyCounters
  | [], counters => ([], counters)
  | call :: rest, counters =>
      let (chosen, counted) := call.choose compressors tests counters
      let (later, final) := runCalls rest counted
      (chosen :: later, final)

variable {compressors tests} {call : PolicyCall Threshold}

theorem later_of_escalates {zstd3 : Bytes}
    (escalates : escalates tests call.config call.phase call.chunk zstd3 = true) :
    call.phase = .incremental := by
  simp only [Busyncr.escalates, Bool.and_eq_true, decide_eq_true_eq] at escalates
  exact escalates.1.2

theorem outcome_escalateOver {zstd3 : Bytes} (baseline : Baseline compressors tests call zstd3)
    (later : call.phase = .incremental) (counters : PolicyCounters) :
    ∃ chosen spent, Outcome compressors tests call chosen spent ∧
      escalateOver compressors call.config call.chunk zstd3 (counters.reading call.chunk) =
        (chosen, counters.add spent) := by
  have kept : keepBaseline zstd3 { counters.reading call.chunk with
      escalationAttempts := counters.escalationAttempts + 1 } = ((.zstd, zstd3),
      counters.add ⟨0, 1, 0, 1, .ofNat call.chunk.length, .ofNat zstd3.length⟩) := by
    simp [keepBaseline, PolicyCounters.add, PolicyCounters.reading]
  unfold escalateOver
  split
  next => exact ⟨_, _, .discarded baseline later, kept⟩
  next zstd9 _ =>
    split
    next shorter =>
      refine ⟨_, _, .escalated baseline later shorter, ?_⟩
      simp [PolicyCounters.add, PolicyCounters.reading]
    next => exact ⟨_, _, .discarded baseline later, kept⟩

variable (compressors tests)

/-- Every exit of the policy is an outcome. -/
theorem outcome_choose (call : PolicyCall Threshold) (counters : PolicyCounters) :
    ∃ chosen spent, Outcome compressors tests call chosen spent ∧
      call.choose compressors tests counters = (chosen, counters.add spent) := by
  have stored : keepRaw call.chunk (counters.reading call.chunk) = ((.raw, call.chunk),
      counters.add ⟨1, 0, 0, 0, .ofNat call.chunk.length, .ofNat call.chunk.length⟩) := by
    simp [keepRaw, PolicyCounters.add, PolicyCounters.reading]
  unfold PolicyCall.choose chooseCodec
  split
  next empty =>
    refine ⟨_, _, .raw, ?_⟩
    simp [PolicyCounters.add, empty]
  next nonempty =>
    split
    next => exact ⟨_, _, .raw, stored⟩
    next passed =>
      split
      next => exact ⟨_, _, .raw, stored⟩
      next zstd3 compressed =>
        split
        next => exact ⟨_, _, .raw, stored⟩
        next kept =>
          have baseline : Baseline compressors tests call zstd3 :=
            ⟨nonempty, eq_false_of_ne_true passed, compressed, eq_false_of_ne_true kept⟩
          split
          next escalates =>
            exact outcome_escalateOver baseline (later_of_escalates escalates) counters
          next =>
            refine ⟨_, _, .baseline baseline, ?_⟩
            simp [keepBaseline, PolicyCounters.add]

end Outcomes

/-- What one call does to the counters and to the payload it returns. -/
structure CallCounted {Threshold : Type} (compressors : Compressors)
    (call : PolicyCall Threshold) (before : PolicyCounters) (chosen : CodecId × Bytes)
    (after : PolicyCounters) : Prop where
  raw : chosen.1 = .raw →
    chosen.2 = call.chunk ∧ after.raw = before.raw + 1 ∧ after.zstd3 = before.zstd3 ∧
      after.escalated = before.escalated ∧
      after.escalationAttempts = before.escalationAttempts
  zstd : chosen.1 = .zstd →
    ∃ baseline, compressZstd compressors call.chunk call.config.zstdLevel = .ok baseline ∧
      after.raw = before.raw ∧
      (chosen.2 = baseline ∧ after.zstd3 = before.zstd3 + 1 ∧
          after.escalated = before.escalated ∨
        chosen.2.length < baseline.length ∧ after.zstd3 = before.zstd3 ∧
          after.escalated = before.escalated + 1 ∧
          after.escalationAttempts = before.escalationAttempts + 1)
  read : after.bytesIn = before.bytesIn + UInt64.ofNat call.chunk.length
  stored : after.bytesOut = before.bytesOut + UInt64.ofNat chosen.2.length
  gated : call.phase = .initialFull → after.escalationAttempts = before.escalationAttempts

theorem Outcome.counted {Threshold : Type} {compressors : Compressors}
    {tests : LengthTests Threshold} {call : PolicyCall Threshold} {chosen : CodecId × Bytes}
    {spent : PolicyCounters} (outcome : Outcome compressors tests call chosen spent)
    (before : PolicyCounters) : CallCounted compressors call before chosen (before.add spent) := by
  constructor
  case raw => cases outcome <;> simp [PolicyCounters.add]
  case zstd =>
    intro zstd
    cases outcome with
    | raw => cases zstd
    | baseline baseline => exact ⟨_, baseline.compressed, by simp [PolicyCounters.add]⟩
    | discarded baseline => exact ⟨_, baseline.compressed, by simp [PolicyCounters.add]⟩
    | escalated baseline _ shorter =>
        exact ⟨_, baseline.compressed, by simp [PolicyCounters.add, shorter]⟩
  case read => cases outcome <;> simp [PolicyCounters.add]
  case stored => cases outcome <;> simp [PolicyCounters.add]
  case gated =>
    intro initial
    cases outcome with
    | raw => simp [PolicyCounters.add]
    | baseline => simp [PolicyCounters.add]
    | discarded _ later => simp [initial] at later
    | escalated _ later => simp [initial] at later

/-- Exact totals behind the counters of a run. -/
structure Totals where
  raw : Nat
  zstd3 : Nat
  escalated : Nat
  escalationAttempts : Nat
  bytesIn : Nat
  bytesOut : Nat

def Totals.counters (totals : Totals) : PolicyCounters where
  raw := .ofNat totals.raw
  zstd3 := .ofNat totals.zstd3
  escalated := .ofNat totals.escalated
  escalationAttempts := .ofNat totals.escalationAttempts
  bytesIn := .ofNat totals.bytesIn
  bytesOut := .ofNat totals.bytesOut

def Totals.add (left right : Totals) : Totals where
  raw := left.raw + right.raw
  zstd3 := left.zstd3 + right.zstd3
  escalated := left.escalated + right.escalated
  escalationAttempts := left.escalationAttempts + right.escalationAttempts
  bytesIn := left.bytesIn + right.bytesIn
  bytesOut := left.bytesOut + right.bytesOut

theorem Totals.counters_add (left right : Totals) :
    (left.add right).counters = left.counters.add right.counters := by
  simp [Totals.counters, Totals.add, PolicyCounters.add]

/-- The totals account for the calls and for what they returned. -/
structure Totals.Account {Threshold : Type} (totals : Totals)
    (calls : List (PolicyCall Threshold)) (returned : List (CodecId × Bytes)) : Prop where
  answered : returned.length = calls.length
  chunks : totals.raw + totals.zstd3 + totals.escalated = calls.length
  bytesIn : totals.bytesIn = (calls.map fun call => call.chunk.length).sum
  bytesOut : totals.bytesOut = (returned.map fun chosen => chosen.2.length).sum
  raw : totals.raw = returned.countP fun chosen => chosen.1 = .raw
  zstd : totals.zstd3 + totals.escalated = returned.countP fun chosen => chosen.1 = .zstd
  attempts : totals.escalated ≤ totals.escalationAttempts
  bounded : totals.escalationAttempts ≤ calls.length

section Runs

variable {Threshold : Type} {compressors : Compressors} {tests : LengthTests Threshold}

theorem Outcome.exists_totals {call : PolicyCall Threshold} {chosen : CodecId × Bytes}
    {spent : PolicyCounters} (outcome : Outcome compressors tests call chosen spent) :
    ∃ totals : Totals, totals.counters = spent ∧ totals.Account [call] [chosen] := by
  cases outcome with
  | raw =>
      refine ⟨⟨1, 0, 0, 0, call.chunk.length, call.chunk.length⟩, rfl, ?_⟩
      constructor <;> simp
  | @baseline zstd3 =>
      refine ⟨⟨0, 1, 0, 0, call.chunk.length, zstd3.length⟩, rfl, ?_⟩
      constructor <;> simp
  | @discarded zstd3 =>
      refine ⟨⟨0, 1, 0, 1, call.chunk.length, zstd3.length⟩, rfl, ?_⟩
      constructor <;> simp
  | @escalated _ zstd9 =>
      refine ⟨⟨0, 0, 1, 1, call.chunk.length, zstd9.length⟩, rfl, ?_⟩
      constructor <;> simp

theorem Totals.Account.cons {call : PolicyCall Threshold} {chosen : CodecId × Bytes}
    {first later : Totals} {rest : List (PolicyCall Threshold)}
    {returned : List (CodecId × Bytes)} (head : first.Account [call] [chosen])
    (tail : later.Account rest returned) :
    (first.add later).Account (call :: rest) (chosen :: returned) where
  answered := by simp [tail.answered]
  chunks := by
    have one := head.chunks
    have more := tail.chunks
    simp only [Totals.add, List.length_cons, List.length_nil] at one ⊢
    omega
  bytesIn := by simpa [Totals.add, tail.bytesIn] using head.bytesIn
  bytesOut := by simpa [Totals.add, tail.bytesOut] using head.bytesOut
  raw := by
    have one := head.raw
    simp only [Totals.add, List.countP_cons, List.countP_nil, tail.raw] at one ⊢
    omega
  zstd := by
    have one := head.zstd
    have more := tail.zstd
    simp only [Totals.add, List.countP_cons, List.countP_nil] at one ⊢
    omega
  attempts := Nat.add_le_add head.attempts tail.attempts
  bounded := by
    have one := head.bounded
    have more := tail.bounded
    simp only [Totals.add, List.length_cons, List.length_nil] at one ⊢
    omega

theorem PolicyCounters.add_assoc (first second third : PolicyCounters) :
    (first.add second).add third = first.add (second.add third) := by
  simp only [add, mk.injEq]
  grind

variable (compressors tests)

/-- The counters after a run are exact totals, modulo their width. -/
theorem exists_totals_runCalls (calls : List (PolicyCall Threshold)) (counters : PolicyCounters) :
    ∃ totals : Totals, (runCalls compressors tests calls counters).2 =
        counters.add totals.counters ∧
      totals.Account calls (runCalls compressors tests calls counters).1 := by
  induction calls generalizing counters with
  | nil =>
      refine ⟨⟨0, 0, 0, 0, 0, 0⟩, ?_, ?_⟩
      · simp [runCalls, Totals.counters, PolicyCounters.add]
      · constructor <;> simp [runCalls]
  | cons call rest inductionHypothesis =>
      obtain ⟨chosen, spent, outcome, chose⟩ :=
        outcome_choose compressors tests call counters
      obtain ⟨first, exact, head⟩ := outcome.exists_totals
      obtain ⟨later, counted, tail⟩ := inductionHypothesis (counters.add spent)
      refine ⟨first.add later, ?_, ?_⟩
      · simp only [runCalls, chose, counted, Totals.counters_add, exact,
          PolicyCounters.add_assoc]
      · simpa only [runCalls, chose] using head.cons tail

theorem runCalls_append (before after : List (PolicyCall Threshold)) (counters : PolicyCounters) :
    runCalls compressors tests (before ++ after) counters =
      ((runCalls compressors tests before counters).1 ++
          (runCalls compressors tests after (runCalls compressors tests before counters).2).1,
        (runCalls compressors tests after (runCalls compressors tests before counters).2).2) := by
  induction before generalizing counters with
  | nil => rfl
  | cons call rest inductionHypothesis => simp [runCalls, inductionHypothesis]

theorem Totals.Account.escalated_le {totals : Totals} {calls : List (PolicyCall Threshold)}
    {returned : List (CodecId × Bytes)} (account : totals.Account calls returned)
    (fits : calls.length < 2 ^ 64) :
    totals.counters.escalated ≤ totals.counters.escalationAttempts := by
  have attempts := account.attempts
  have bounded := account.bounded
  rw [UInt64.le_iff_toNat_le]
  simp only [Totals.counters, UInt64.toNat_ofNat']
  rw [Nat.mod_eq_of_lt (by omega), Nat.mod_eq_of_lt (by omega)]
  exact attempts

/-- Whatever phases and settings the calls come with, the counters that start
at zero account for every chunk, and every call for its own. -/
theorem runCalls_accounts (calls : List (PolicyCall Threshold)) :
    (∃ totals : Totals, (runCalls compressors tests calls .zero).2 = totals.counters ∧
        totals.Account calls (runCalls compressors tests calls .zero).1) ∧
      (runCalls compressors tests calls .zero).2.total = UInt64.ofNat calls.length ∧
      (calls.length < 2 ^ 64 → (runCalls compressors tests calls .zero).2.escalated ≤
        (runCalls compressors tests calls .zero).2.escalationAttempts) ∧
      ∀ before call after, calls = before ++ call :: after →
        ∃ chosen counted,
          call.choose compressors tests (runCalls compressors tests before .zero).2 =
              (chosen, counted) ∧
            (runCalls compressors tests calls .zero).1[before.length]? = some chosen ∧
            CallCounted compressors call (runCalls compressors tests before .zero).2 chosen
              counted := by
  obtain ⟨totals, counted, account⟩ :=
    exists_totals_runCalls compressors tests calls .zero
  rw [PolicyCounters.zero_add] at counted
  refine ⟨⟨totals, counted, account⟩, ?_, ?_, ?_⟩
  · rw [counted, ← account.chunks, UInt64.ofNat_add, UInt64.ofNat_add]
    rfl
  · intro fits
    rw [counted]
    exact account.escalated_le fits
  · rintro before call after rfl
    obtain ⟨chosen, spent, outcome, chose⟩ := outcome_choose compressors tests call
      (runCalls compressors tests before .zero).2
    obtain ⟨_, _, earlier⟩ :=
      exists_totals_runCalls compressors tests before .zero
    refine ⟨chosen, _, chose, ?_, outcome.counted _⟩
    rw [runCalls_append, ← earlier.answered]
    simp [runCalls, chose]

end Runs

end Busyncr
