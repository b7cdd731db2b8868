import CrashLab.BundlePersist
import CrashLab.SimulationRetry

namespace CrashLab.Reproducer

open BundlePersist Retry

inductive StabilityVerdict where
  | stable
  | flaky
  | inconclusiveInfra
deriving DecidableEq, Repr

structure FlakyDetector where
  runs : ℕ
  /-- `diverged as f64 / runs as f64 <= threshold`. -/
  tolerates : ℕ → ℕ → Bool

structure ReproReport (Environment Envelope : Type) where
  bundle : CaseBundle Environment Envelope
  runs : ℕ
  stableCount : ℕ
  /-- The two numbers that `flake_rate` is the quotient of. -/
  flakeRate : ℕ × ℕ
  verdict : StabilityVerdict
  transientRetryCount : ℕ
  isStable : Bool

structure RunCounts where
  stableCount : ℕ
  transientRetryCount : ℕ
  nonTransientOutcomes : ℕ
deriving DecidableEq, Repr

def RunCounts.add (counts : RunCounts) (reference : CrashSignature) :
    Except SimulationError CrashSignature → RunCounts
  | .ok signature =>
    { counts with
      stableCount := if signature = reference then counts.stableCount + 1 else counts.stableCount
      nonTransientOutcomes := counts.nonTransientOutcomes + 1 }
  | .error (.transient _) => { counts with transientRetryCount := counts.transientRetryCount + 1 }
  | .error (.nonTransient _) => { counts with nonTransientOutcomes := counts.nonTransientOutcomes + 1 }

def RunCounts.verdict (counts : RunCounts) (runs : ℕ) : StabilityVerdict :=
  if counts.nonTransientOutcomes = 0 ∧ counts.transientRetryCount > 0 then .inconclusiveInfra
  -- `flake_rate > 0.0`, which `0.0 / 0.0` is not
  else if runs - counts.stableCount > 0 then .flaky
  else .stable

section Runs

variable {σ : Type} (config : RetryConfig) (reproducer : CaseSeed → Call σ CrashSignature)

def countRuns (seed : CaseSeed) (reference : CrashSignature) : ℕ → RunCounts → σ → RunCounts × σ
  | 0, counts, s => (counts, s)
  | runs + 1, counts, s =>
    let (result, s) := executeWithRetry config (reproducer seed) s
    countRuns seed reference runs (counts.add reference result) s

def FlakyDetector.check {Environment Envelope : Type} (detector : FlakyDetector)
    (bundle : CaseBundle Environment Envelope) : Call σ (ReproReport Environment Envelope) := fun s =>
  let (counts, s) := countRuns config reproducer bundle.seed bundle.signature detector.runs ⟨0, 0, 0⟩ s
  let diverged := detector.runs - counts.stableCount
  let verdict := counts.verdict detector.runs
  let isStable := match verdict with
    | .stable => true
    | .flaky => detector.tolerates diverged detector.runs
    | .inconclusiveInfra => false
  (.ok ⟨bundle, detector.runs, counts.stableCount, (diverged, detector.runs), verdict,
    counts.transientRetryCount, isStable⟩, s)

end Runs

/-! What the runs came to, and the verdict that they call for. -/

inductive RunOutcome where
  | matched
  | diverged
  | transient
deriving DecidableEq, Repr

def RunOutcome.of (reference : CrashSignature) : Except SimulationError CrashSignature → RunOutcome
  | .ok signature => if signature = reference then matched else diverged
  | .error (.transient _) => transient
  | .error (.nonTransient _) => diverged

structure VerdictLaw (outcomes : List RunOutcome) (verdict : StabilityVerdict) : Prop where
  stable : verdict = .stable ↔
    (∃ o ∈ outcomes, o ≠ .transient) ∧ ∀ o ∈ outcomes, o ≠ .transient → o = .matched
  flaky : verdict = .flaky ↔ .diverged ∈ outcomes
  inconclusive : verdict = .inconclusiveInfra ↔ ∀ o ∈ outcomes, o = .transient

section Outcomes

variable {σ : Type} (config : RetryConfig) (reproducer : CaseSeed → Call σ CrashSignature)

def runOutcomes (seed : CaseSeed) (reference : CrashSignature) : ℕ → σ → List RunOutcome
  | 0, _ => []
  | runs + 1, s =>
    let (result, s) := executeWithRetry config (reproducer seed) s
    .of reference result :: runOutcomes seed reference runs s

variable {config reproducer}

theorem length_runOutcomes (seed : CaseSeed) (reference : CrashSignature) (runs : ℕ) (s : σ) :
    (runOutcomes config reproducer seed reference runs s).length = runs := by
  induction runs generalizing s with
  | zero => rfl
  | succ runs ih => simp [runOutcomes, ih]

def RunCounts.addOutcomes (counts : RunCounts) (outcomes : List RunOutcome) : RunCounts where
  stableCount := counts.stableCount + outcomes.count .matched
  transientRetryCount := counts.transientRetryCount + outcomes.count .transient
  nonTransientOutcomes :=
    counts.nonTransientOutcomes + outcomes.count .matched + outcomes.count .diverged

theorem RunCounts.addOutcomes_cons (counts : RunCounts) (reference : CrashSignature)
    (result : Except SimulationError CrashSignature) (outcomes : List RunOutcome) :
    (counts.add reference result).addOutcomes outcomes =
      counts.addOutcomes (.of reference result :: outcomes) := by
  rcases result with (_ | _) | signature
  · simp [RunCounts.add, RunCounts.addOutcomes, RunOutcome.of]
    omega
  · simp [RunCounts.add, RunCounts.addOutcomes, RunOutcome.of]
    omega
  · by_cases hsame : signature = reference <;>
      simp [RunCounts.add, RunCounts.addOutcomes, RunOutcome.of, hsame] <;> omega

theorem countRuns_eq (seed : CaseSeed) (reference : CrashSignature) (runs : ℕ) (counts : RunCounts)
    (s : σ) : (countRuns config reproducer seed reference runs counts s).1 =
      counts.addOutcomes (runOutcomes config reproducer seed reference runs s) := by
  induction runs generalizing counts s with
  | zero => rfl
  | succ runs ih =>
    rw [countRuns, runOutcomes]
    simp only [ih, RunCounts.addOutcomes_cons]

end Outcomes

theorem length_eq_counts (outcomes : List RunOutcome) :
    outcomes.length = outcomes.count .matched + outcomes.count .diverged + outcomes.count .transient := by
  induction outcomes with
  | nil => rfl
  | cons o outcomes ih =>
    cases o <;> simp [ih] <;> omega

theorem verdictLaw_iff_counts (outcomes : List RunOutcome) (verdict : StabilityVerdict) :
    VerdictLaw outcomes verdict ↔
      (verdict = .stable ↔ 0 < outcomes.count .matched ∧ outcomes.count .diverged = 0) ∧
      (verdict = .flaky ↔ 0 < outcomes.count .diverged) ∧
      (verdict = .inconclusiveInfra ↔
        outcomes.count .matched = 0 ∧ outcomes.count .diverged = 0) := by
  have hstable : ((∃ o ∈ outcomes, o ≠ .transient) ∧ ∀ o ∈ outcomes, o ≠ .transient → o = .matched) ↔
      0 < outcomes.count .matched ∧ outcomes.count .diverged = 0 := by
    rw [List.count_pos_iff, List.count_eq_zero]
    constructor
    · rintro ⟨⟨o, ho, hne⟩, hall⟩
      exact ⟨hall o ho hne ▸ ho, fun hdiverged => absurd (hall _ hdiverged (by decide)) (by decide)⟩
    · rintro ⟨hmatched, hnone⟩
      refine ⟨⟨_, hmatched, by decide⟩, fun o ho hne => ?_⟩
      cases o with
      | matched => rfl
      | diverged => exact absurd ho hnone
      | transient => exact absurd rfl hne
  have hinfra : (∀ o ∈ outcomes, o = .transient) ↔
      outcomes.count .matched = 0 ∧ outcomes.count .diverged = 0 := by
    rw [List.count_eq_zero, List.count_eq_zero]
    constructor
    · intro hall
      exact ⟨fun h => absurd (hall _ h) (by decide), fun h => absurd (hall _ h) (by decide)⟩
    · rintro ⟨hmatched, hdiverged⟩ o ho
      cases o with
      | matched => exact absurd ho hmatched
      | diverged => exact absurd ho hdiverged
      | transient => rfl
  constructor
  · rintro ⟨h, hflaky, hinconclusive⟩
    exact ⟨h.trans hstable, hflaky.trans List.count_pos_iff.symm, hinconclusive.trans hinfra⟩
  · rintro ⟨h, hflaky, hinconclusive⟩
    exact ⟨h.trans hstable.symm, hflaky.trans List.count_pos_iff, hinconclusive.trans hinfra.symm⟩

theorem verdict_law_of_outcomes (outcomes : List RunOutcome) :
    VerdictLaw outcomes (((RunCounts.mk 0 0 0).addOutcomes outcomes).verdict outcomes.length) ↔
      outcomes ≠ [] ∧ ¬ (.transient ∈ outcomes ∧ .matched ∈ outcomes ∧ .diverged ∉ outcomes) := by
  have hlength := length_eq_counts outcomes
  rw [verdictLaw_iff_counts, ← List.length_pos_iff, ← List.count_pos_iff, ← List.count_pos_iff,
    ← List.count_eq_zero, RunCounts.verdict]
  simp only [RunCounts.addOutcomes, Nat.zero_add]
  split_ifs with hinfra hflaky
  · simp only [false_iff, true_iff]
    omega
  · simp only [false_iff, true_iff]
    omega
  · simp only [false_iff, true_iff]
    omega

section Scripts

end Scripts

theorem verdict_law_iff {Environment Envelope σ : Type} (detector : FlakyDetector)
    (bundle : CaseBundle Environment Envelope) (config : RetryConfig)
    (reproducer : CaseSeed → Call σ CrashSignature) (s : σ) :
    let outcomes := runOutcomes config reproducer bundle.seed bundle.signature detector.runs s
    ∃ report, (detector.check config reproducer bundle s).1 = .ok report ∧
      (VerdictLaw outcomes report.verdict ↔
        detector.runs ≠ 0 ∧
          ¬ (.transient ∈ outcomes ∧ .matched ∈ outcomes ∧ .diverged ∉ outcomes)) := by
  intro outcomes
  refine ⟨_, rfl, ?_⟩
  have hlength : outcomes.length = detector.runs := length_runOutcomes _ _ _ _
  have hlaw := verdict_law_of_outcomes outcomes
  rw [hlength, ← List.length_pos_iff, hlength, Nat.pos_iff_ne_zero] at hlaw
  simpa only [countRuns_eq] using hlaw

def recovering (signature : CrashSignature) (_ : CaseSeed) : Call ℕ CrashSignature := fun calls =>
  (if calls < 3 then .error (.transient "timeout") else .ok signature, calls + 1)

theorem recovered_infrastructure_called_flaky :
    let bundle : CaseBundle Unit Unit := ⟨⟨1, [1, 2, 3]⟩, ⟨"trap", 0, 0⟩, none, [], none, ""⟩
    let detector : FlakyDetector := ⟨2, fun diverged runs => 10 * diverged ≤ runs⟩
    let reproducer := recovering bundle.signature
    runOutcomes .default reproducer bundle.seed bundle.signature 2 0 = [.transient, .matched] ∧
      ∃ report, (detector.check .default reproducer bundle 0).1 = .ok report ∧
        report.verdict = .flaky ∧ ¬ VerdictLaw [.transient, .matched] report.verdict := by
  refine ⟨rfl, _, rfl, rfl, fun h => ?_⟩
  have hflaky := h.flaky.mp rfl
  simp at hflaky

end CrashLab.Reproducer
