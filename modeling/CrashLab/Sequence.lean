import CrashLab.MachineInts
import CrashLab.SignatureHash

namespace CrashLab.Sequence

open MachineInts SignatureHash

def sequenceSchemaVersion : ℕ := 2

inductive StepOutcome where
  | success
  | failure (cls : String)
deriving DecidableEq, Repr

def StepOutcome.label : StepOutcome → String
  | success => "success"
  | failure cls => cls

inductive StepExpectation where
  | success
  | failure (cls : String)
  | any
deriving DecidableEq, Repr

structure SequenceStep where
  invocation : List UInt8
  authMode : String
  expectation : StepExpectation
deriving DecidableEq, Repr

structure SequenceSeed where
  schema : ℕ
  id : ℕ
  steps : List SequenceStep
deriving DecidableEq, Repr

def SequenceSeed.new (id : ℕ) (steps : List SequenceStep) : SequenceSeed :=
  ⟨sequenceSchemaVersion, id, steps⟩

inductive SequenceError where
  | json (message : String)
  | unsupportedSchema (found : ℕ)
  | noSteps
  | stepsOutOfRange (count min max : ℕ)
  | stepIndexOutOfBounds (index count : ℕ)
  | statePrefixProtected (index statePrefix : ℕ)
deriving DecidableEq, Repr

structure SequenceConfig where
  minSteps : ℕ
  maxSteps : ℕ
deriving DecidableEq, Repr

def SequenceConfig.allows (config : SequenceConfig) (steps : ℕ) : Bool :=
  steps ≥ config.minSteps && steps ≤ config.maxSteps

inductive SequenceVerdict where
  | matched
  | diverged (stepIndex : ℕ) (expected : StepExpectation) (observed : StepOutcome)
  | incomplete (expectedSteps observedSteps : ℕ)
deriving DecidableEq, Repr

def SequenceVerdict.divergenceStep : SequenceVerdict → Option ℕ
  | diverged stepIndex _ _ => some stepIndex
  | _ => none

def expectationMet : StepExpectation → StepOutcome → Bool
  | .any, _ => true
  | .success, observed => observed == .success
  | .failure cls, .failure actual => actual == cls
  | .failure _, .success => false

def firstDivergence : ℕ → List SequenceStep → List StepOutcome → SequenceVerdict
  | index, step :: steps, outcome :: observed =>
    if !expectationMet step.expectation outcome then .diverged index step.expectation outcome
    else firstDivergence (index + 1) steps observed
  | _, _, _ => .matched

def evaluateSequence (steps : List SequenceStep) (observed : List StepOutcome) : SequenceVerdict :=
  if observed.length ≠ steps.length then .incomplete steps.length observed.length
  else firstDivergence 0 steps observed

/-- Executes one step on the ledger state that the step before left. `ε` is the executor's own
state. -/
structure StepExecutor (ε : Type) where
  execute : ε → SequenceStep → List UInt8 → StepOutcome × ε × List UInt8

structure SequenceRun where
  seedId : ℕ
  observations : List StepOutcome
  verdict : SequenceVerdict
deriving DecidableEq, Repr

section Drive

variable {ε : Type} (executor : StepExecutor ε)

def observe : ε → List UInt8 → List SequenceStep → List StepOutcome
  | _, _, [] => []
  | e, ledgerState, step :: steps =>
    let (outcome, e, ledgerState) := executor.execute e step ledgerState
    outcome :: observe e ledgerState steps

def driveSequence (e : ε) (seed : SequenceSeed) : SequenceRun :=
  let observations := observe executor e [] seed.steps
  ⟨seed.id, observations, evaluateSequence seed.steps observations⟩

end Drive

def signatureParts (steps : List SequenceStep) : SequenceVerdict → String × List UInt8
  | .diverged stepIndex _ outcome =>
    ("sequence-diverge@" ++ toString stepIndex ++ ":" ++ outcome.label,
      ((steps[stepIndex]?).map (·.invocation)).getD [])
  | .matched => ("sequence-matched", steps.flatMap (·.invocation))
  | .incomplete expectedSteps observedSteps =>
    ("sequence-incomplete:" ++ toString expectedSteps ++ "/" ++ toString observedSteps, [])

def payloadDigest (payload : List UInt8) : ℕ :=
  payload.foldl (fun acc b => (acc * 1099511628211 + b.toNat) % 2 ^ 64) 0

def signatureFrom (parts : String × List UInt8) : CrashSignature :=
  { category := parts.1
    digest := payloadDigest parts.2
    signatureHash := computeSignatureHash parts.1 parts.2 }

def sequenceCrashSignature (steps : List SequenceStep) (observed : List StepOutcome) :
    CrashSignature :=
  signatureFrom (signatureParts steps (evaluateSequence steps observed))

inductive StructuralOp where
  | insert (after : Option ℕ) (step : SequenceStep)
  | delete (index : ℕ)
  | swap (a b : ℕ)
deriving DecidableEq, Repr

def swapSteps (steps : List SequenceStep) (a b : ℕ) : List SequenceStep :=
  match steps[a]?, steps[b]? with
  | some x, some y => (steps.set a y).set b x
  | _, _ => steps

def restructure (steps : List SequenceStep) (statePrefix : ℕ) :
    StructuralOp → Except SequenceError (List SequenceStep)
  | .insert none step => .ok (step :: steps)
  | .insert (some i) step =>
    if i < steps.length then .ok (steps.insertIdx (i + 1) step)
    else .error (.stepIndexOutOfBounds i steps.length)
  | .delete index =>
    if index ≥ steps.length then .error (.stepIndexOutOfBounds index steps.length)
    else if index < statePrefix then .error (.statePrefixProtected index statePrefix)
    else .ok (steps.eraseIdx index)
  | .swap a b =>
    if a ≥ steps.length ∨ b ≥ steps.length then
      .error (.stepIndexOutOfBounds (max a b) steps.length)
    else if a < statePrefix ∨ b < statePrefix then
      .error (.statePrefixProtected (min a b) statePrefix)
    else .ok (swapSteps steps a b)

def applyStructural (seed : SequenceSeed) (op : StructuralOp) (config : SequenceConfig)
    (statePrefix : ℕ) : Except SequenceError SequenceSeed :=
  match restructure seed.steps (min statePrefix seed.steps.length) op with
  | .error e => .error e
  | .ok steps =>
    if !config.allows steps.length then
      .error (.stepsOutOfRange steps.length config.minSteps config.maxSteps)
    else .ok { seed with steps }

theorem applyStructural_delete_length {seed candidate : SequenceSeed} {index statePrefix : ℕ}
    {config : SequenceConfig}
    (h : applyStructural seed (.delete index) config statePrefix = .ok candidate) :
    candidate.steps.length < seed.steps.length := by
  simp only [applyStructural, restructure] at h
  by_cases hindex : index ≥ seed.steps.length
  · simp [hindex] at h
  · split_ifs at h
    simp only at h
    split_ifs at h
    obtain rfl := Except.ok.inj h
    rw [List.length_eraseIdx_of_lt (not_le.mp hindex)]
    omega

section Shrink

variable (statePrefix : ℕ) (signatureOf : SequenceSeed → CrashSignature) (target : CrashSignature)

def dropStep (current : SequenceSeed) : ℕ → Option SequenceSeed
  | 0 => none
  | index + 1 =>
    if index + 1 > min statePrefix current.steps.length then
      -- `SequenceConfig::new(1, usize::MAX).unwrap()`
      match applyStructural current (.delete index) ⟨1, usizeMax⟩ statePrefix with
      | .ok candidate =>
        if signatureOf candidate = target then some candidate else dropStep current index
      | .error _ => dropStep current index
    else none

theorem dropStep_some {current candidate : SequenceSeed} {index : ℕ}
    (h : dropStep statePrefix signatureOf target current index = some candidate) :
    candidate.steps.length < current.steps.length ∧ signatureOf candidate = target := by
  induction index with
  | zero => cases h
  | succ index ih =>
    rw [dropStep] at h
    split_ifs at h with hindex
    split at h
    · rename_i found heq
      split_ifs at h with hsig
      · obtain rfl := Option.some_inj.mp h
        exact ⟨applyStructural_delete_length heq, hsig⟩
      · exact ih h
    · exact ih h

def shrinkLoop (floor : ℕ) (current : SequenceSeed) : SequenceSeed :=
  if current.steps.length > floor then
    match _hdrop : dropStep statePrefix signatureOf target current current.steps.length with
    | some candidate => shrinkLoop floor candidate
    | none => current
  else current
termination_by current.steps.length
decreasing_by exact (dropStep_some statePrefix signatureOf target _hdrop).1

end Shrink

def shrinkSequence (seed : SequenceSeed) (minSteps statePrefix : ℕ)
    (signatureOf : SequenceSeed → CrashSignature) : SequenceSeed :=
  shrinkLoop statePrefix signatureOf (signatureOf seed) (max minSteps 1) seed

end CrashLab.Sequence
