import CrashLab.PrefixSums

namespace CrashLab.Scheduler

open PrefixSums

/-- An `f64` as the scheduler sees it: the finite ones are exact rationals. -/
inductive F64 where
  | finite (value : ℚ)
  | nan
  | infinite (negative : Bool)
deriving DecidableEq

structure MutatorStats where
  selectionCount : ℕ
  decodeSuccessCount : ℕ
  contractReachedCount : ℕ
  noveltyCount : ℕ
deriving DecidableEq, Repr

def MutatorStats.default : MutatorStats := ⟨0, 0, 0, 0⟩

inductive SchedulerError where
  | emptyMutatorSet
  | invalidWeightConfiguration
  | mutatorNotFound
  | invalidWeight
deriving DecidableEq, Repr

structure WeightedScheduler (Mutator : Type) where
  mutators : List Mutator
  weights : List ℚ
  cumulativeWeights : List ℚ
  totalWeight : ℚ
  stats : List MutatorStats
  totalSelections : ℕ
  baselineWeights : List ℚ
  deadMutatorThreshold : Option ℕ
  demotionFactor : ℚ
  demoted : List Bool
deriving DecidableEq

def clampWeight (weight : ℚ) : ℚ := if weight < 0 then 0 else weight

def configWeights {Mutator : Type} : List (Mutator × F64) → Option (List ℚ)
  | [] => some []
  | (_, .finite weight) :: configs => (configWeights configs).map (clampWeight weight :: ·)
  | _ :: _ => none

/-- The generator behind `select_mutator`, with the state it leaves. -/
def nextF64 (state : ℕ) : ℚ × ℕ :=
  let state := (state + 0x9E3779B97F4A7C15) % 2 ^ 64
  let z := state
  let z := (z ^^^ (z >>> 30)) * 0xBF58476D1CE4E5B9 % 2 ^ 64
  let z := (z ^^^ (z >>> 27)) * 0x94D049BB133111EB % 2 ^ 64
  let z := z ^^^ (z >>> 31)
  ((z : ℚ) / 2 ^ 64, state)

namespace WeightedScheduler

variable {Mutator : Type}

def new (configs : List (Mutator × F64)) : Except SchedulerError (WeightedScheduler Mutator) :=
  if configs.isEmpty then .error .emptyMutatorSet
  else
    match configWeights configs with
    | none => .error .invalidWeight
    | some weights =>
      if weights.sum ≤ 0 then .error .invalidWeightConfiguration
      else .ok
        { mutators := configs.map Prod.fst
          weights := weights
          cumulativeWeights := cumulate 0 weights
          totalWeight := weights.sum
          stats := List.replicate configs.length .default
          totalSelections := 0
          baselineWeights := weights
          deadMutatorThreshold := none
          demotionFactor := 1 / 20
          demoted := List.replicate configs.length false }

def recomputeCumulative (s : WeightedScheduler Mutator) : WeightedScheduler Mutator :=
  { s with cumulativeWeights := cumulate 0 s.weights, totalWeight := s.weights.sum }

def isDead (s : WeightedScheduler Mutator) (index : ℕ) : Bool :=
  match s.deadMutatorThreshold, s.stats[index]? with
  | some threshold, some stat =>
    s.demoted[index]? == some false && threshold ≤ stat.selectionCount && stat.noveltyCount == 0
  | _, _ => false

def indexFor (s : WeightedScheduler Mutator) (r : ℚ) : ℕ :=
  min (s.cumulativeWeights.takeWhile (· ≤ r)).length (s.mutators.length - 1)

def countSelection (s : WeightedScheduler Mutator) (index : ℕ) : WeightedScheduler Mutator :=
  { s with
    totalSelections := s.totalSelections + 1
    stats := s.stats.modify index fun stat =>
      { stat with selectionCount := stat.selectionCount + 1 } }

def demoteIfDead (s : WeightedScheduler Mutator) (index : ℕ) : WeightedScheduler Mutator :=
  if s.isDead index then
    recomputeCumulative { s with
      demoted := s.demoted.set index true
      weights := s.weights.set index ((s.baselineWeights[index]?).getD 0 * s.demotionFactor) }
  else s

def selectMutator (s : WeightedScheduler Mutator) (rngState : ℕ) :
    Option Mutator × ℕ × WeightedScheduler Mutator :=
  let (u, rngState) := nextF64 rngState
  let index := s.indexFor (u * s.totalWeight)
  (s.mutators[index]?, rngState, (s.countSelection index).demoteIfDead index)

def recordNovelty (s : WeightedScheduler Mutator) (index : ℕ) : WeightedScheduler Mutator :=
  let s := { s with
    stats := s.stats.modify index fun stat => { stat with noveltyCount := stat.noveltyCount + 1 } }
  if (s.demoted[index]?).getD false then
    recomputeCumulative { s with
      demoted := s.demoted.set index false
      weights := s.weights.set index ((s.baselineWeights[index]?).getD 0) }
  else s

def recordDecodeSuccess (s : WeightedScheduler Mutator) (index : ℕ) : WeightedScheduler Mutator :=
  { s with stats := s.stats.modify index fun stat =>
      { stat with decodeSuccessCount := stat.decodeSuccessCount + 1 } }

def recordContractReached (s : WeightedScheduler Mutator) (index : ℕ) : WeightedScheduler Mutator :=
  { s with stats := s.stats.modify index fun stat =>
      { stat with contractReachedCount := stat.contractReachedCount + 1 } }

def setDeadMutatorPolicy (s : WeightedScheduler Mutator) (threshold : ℕ) (demotionFactor : F64) :
    WeightedScheduler Mutator :=
  { s with
    deadMutatorThreshold := if threshold > 0 then some threshold else none
    demotionFactor := match demotionFactor with
      | .finite factor => max (1 / 100) (min factor 1)
      | _ => 1 / 20 }

def updateWeight (s : WeightedScheduler Mutator) (index : ℕ) (newWeight : F64) :
    Except SchedulerError Unit × WeightedScheduler Mutator :=
  if s.weights.length ≤ index then (.error .mutatorNotFound, s)
  else
    match newWeight with
    | .finite weight =>
      -- the weight is stored before the total is checked, and stays when the check fails
      let s := { s with weights := s.weights.set index (clampWeight weight) }
      if s.weights.sum ≤ 0 then (.error .invalidWeightConfiguration, s)
      else (.ok (), recomputeCumulative s)
    | _ => (.error .invalidWeight, s)

def yieldOrder (stats : List MutatorStats) (n : ℕ) : List ℕ :=
  let yieldOf (i : ℕ) : ℕ := ((stats[i]?).map (·.noveltyCount)).getD 0
  (List.range n).insertionSort fun a b => yieldOf b < yieldOf a ∨ yieldOf b = yieldOf a ∧ a ≤ b

def rankedWeights (n : ℕ) : ℕ → List ℕ → List ℚ → List ℚ
  | _, [], weights => weights
  | rank, idx :: order, weights =>
    rankedWeights n (rank + 1) order (weights.set idx ((n - rank : ℕ) : ℚ))

def diversify (s : WeightedScheduler Mutator) : Bool × WeightedScheduler Mutator :=
  let n := s.mutators.length
  if n < 2 then (false, s)
  else
    let order := yieldOrder s.stats n
    let newWeights := rankedWeights n 0 order (List.replicate n 0)
    let total := (order.zipIdx.map fun ranked => ((n - ranked.2 : ℕ) : ℚ)).sum
    if total ≤ 0 then (false, s)
    else (true, recomputeCumulative { s with weights := newWeights })

def resetWeights (s : WeightedScheduler Mutator) : WeightedScheduler Mutator :=
  recomputeCumulative { s with
    weights := s.baselineWeights
    demoted := s.demoted.map fun _ => false }

end WeightedScheduler

end CrashLab.Scheduler
