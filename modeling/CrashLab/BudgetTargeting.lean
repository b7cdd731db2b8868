import CrashLab.Prng
import Mathlib.Tactic

namespace CrashLab.BudgetTargeting

open Prng

def limitBps : UInt32 := 10000

def u32Max : UInt32 := 4294967295

def absDiff (a b : UInt32) : UInt32 := if a ≤ b then b - a else a - b

inductive MeterDimension where
  | cpu
  | mem
  | minBuiltin
deriving DecidableEq, Repr

structure MeteringLimits where
  cpuInsns : UInt64
  memBytes : UInt64
  minBuiltin : UInt64
deriving DecidableEq, Repr

def MeteringLimits.default : MeteringLimits := ⟨100000000, 40 * 1024 * 1024, 100000000 / 100⟩

def MeteringLimits.limitFor (limits : MeteringLimits) : MeterDimension → UInt64
  | .cpu => limits.cpuInsns
  | .mem => limits.memBytes
  | .minBuiltin => limits.minBuiltin

inductive BandStatus where
  | belowTarget
  | inBand
  | aboveTarget
deriving DecidableEq, Repr

structure TargetBand where
  widthBps : UInt32
deriving DecidableEq, Repr

namespace TargetBand

def lowBps (band : TargetBand) : UInt32 := if band.widthBps ≤ limitBps then limitBps - band.widthBps else 0

def highBps (band : TargetBand) : UInt32 :=
  if band.widthBps ≤ u32Max - limitBps then limitBps + band.widthBps else u32Max

def status (band : TargetBand) (utilizationBps : UInt32) : BandStatus :=
  if utilizationBps < band.lowBps then .belowTarget
  else if utilizationBps > band.highBps then .aboveTarget
  else .inBand

end TargetBand

def utilizationBpsOf (value limit : UInt64) : UInt32 :=
  if limit = 0 then if value = 0 then 0 else u32Max
  else UInt32.ofNat (min (value.toNat * limitBps.toNat / limit.toNat) u32Max.toNat)

structure ConsumptionSample where
  cpuInsns : UInt64
  memBytes : UInt64
  minBuiltin : UInt64
deriving DecidableEq, Repr

namespace ConsumptionSample

variable (sample : ConsumptionSample) (limits : MeteringLimits)

def valueFor : MeterDimension → UInt64
  | .cpu => sample.cpuInsns
  | .mem => sample.memBytes
  | .minBuiltin => sample.minBuiltin

def utilizationBps (dimension : MeterDimension) : UInt32 :=
  utilizationBpsOf (sample.valueFor dimension) (limits.limitFor dimension)

def utilizationPerDimension : List (MeterDimension × UInt32) :=
  [(.cpu, sample.utilizationBps limits .cpu), (.mem, sample.utilizationBps limits .mem),
    (.minBuiltin, sample.utilizationBps limits .minBuiltin)]

def peakUtilizationBps : UInt32 := ((sample.utilizationPerDimension limits).map Prod.snd).max?.getD 0

/-- One turn of the loop over the dimensions: `best` is what the turns before it chose. -/
def closerInBand (band : TargetBand) (best : Option (MeterDimension × UInt32))
    (candidate : MeterDimension × UInt32) : Option (MeterDimension × UInt32) :=
  if band.status candidate.2 ≠ .inBand then best
  else
    match best with
    | none => some candidate
    | some (_, bestUtilization) =>
      if absDiff candidate.2 limitBps < absDiff bestUtilization limitBps then some candidate else best

def inBandDimension (band : TargetBand) : Option (MeterDimension × UInt32) :=
  (sample.utilizationPerDimension limits).foldl (closerInBand band) none

end ConsumptionSample

structure BudgetEdge where
  dimension : MeterDimension
  utilizationBps : UInt32
deriving DecidableEq, Repr

structure KnobBounds where
  loopCount : UInt64 × UInt64
  vecLen : UInt32 × UInt32
  stringLen : UInt32 × UInt32
  nestedDepth : UInt32 × UInt32
deriving DecidableEq, Repr

def KnobBounds.default : KnobBounds := ⟨(1, 1000000), (1, 10000), (1, 16384), (1, 32)⟩

def KnobBounds.isValid (bounds : KnobBounds) : Bool :=
  bounds.loopCount.1 ≤ bounds.loopCount.2 && bounds.loopCount.2 > 0 &&
    bounds.vecLen.1 ≤ bounds.vecLen.2 && bounds.vecLen.2 > 0 &&
    bounds.stringLen.1 ≤ bounds.stringLen.2 && bounds.stringLen.2 > 0 &&
    bounds.nestedDepth.1 ≤ bounds.nestedDepth.2 && bounds.nestedDepth.2 > 0

structure BudgetKnobs where
  loopCount : UInt64
  vecLen : UInt32
  stringLen : UInt32
  nestedDepth : UInt32
deriving DecidableEq, Repr

structure BudgetTargetConfig where
  limits : MeteringLimits
  band : TargetBand
  bounds : KnobBounds
  maxIterations : UInt32
deriving DecidableEq, Repr

def BudgetTargetConfig.isValid (config : BudgetTargetConfig) : Bool :=
  config.bounds.isValid && config.band.widthBps ≤ limitBps && config.maxIterations > 0

def BudgetTargetConfig.default : BudgetTargetConfig := ⟨.default, ⟨500⟩, .default, 32⟩

theorem BudgetTargetConfig.default_isValid : BudgetTargetConfig.default.isValid = true := by decide

inductive KnobAxis where
  | loopCount
  | vecLen
  | stringLen
  | nestedDepth
deriving DecidableEq, Repr

def knobAxes : List KnobAxis := [.loopCount, .vecLen, .stringLen, .nestedDepth]

def KnobAxis.fromDimension : MeterDimension → KnobAxis
  | .cpu => .loopCount
  | .mem => .vecLen
  | .minBuiltin => .stringLen

def knobBoundsPair (bounds : KnobBounds) : KnobAxis → UInt64 × UInt64
  | .loopCount => bounds.loopCount
  | .vecLen => (bounds.vecLen.1.toUInt64, bounds.vecLen.2.toUInt64)
  | .stringLen => (bounds.stringLen.1.toUInt64, bounds.stringLen.2.toUInt64)
  | .nestedDepth => (bounds.nestedDepth.1.toUInt64, bounds.nestedDepth.2.toUInt64)

def setKnobBoundsPair (bounds : KnobBounds) (axis : KnobAxis) (lo hi : UInt64) : KnobBounds :=
  match axis with
  | .loopCount => { bounds with loopCount := (lo, hi) }
  | .vecLen => { bounds with vecLen := (lo.toUInt32, hi.toUInt32) }
  | .stringLen => { bounds with stringLen := (lo.toUInt32, hi.toUInt32) }
  | .nestedDepth => { bounds with nestedDepth := (lo.toUInt32, hi.toUInt32) }

def getKnob (knobs : BudgetKnobs) : KnobAxis → UInt64
  | .loopCount => knobs.loopCount
  | .vecLen => knobs.vecLen.toUInt64
  | .stringLen => knobs.stringLen.toUInt64
  | .nestedDepth => knobs.nestedDepth.toUInt64

def setKnob (knobs : BudgetKnobs) (axis : KnobAxis) (value : UInt64) : BudgetKnobs :=
  match axis with
  | .loopCount => { knobs with loopCount := value }
  | .vecLen => { knobs with vecLen := value.toUInt32 }
  | .stringLen => { knobs with stringLen := value.toUInt32 }
  | .nestedDepth => { knobs with nestedDepth := value.toUInt32 }

def midpoint (pair : UInt64 × UInt64) : UInt64 := pair.1 + (pair.2 - pair.1) / 2

def midpointU32 (pair : UInt32 × UInt32) : UInt32 := pair.1 + (pair.2 - pair.1) / 2

structure BudgetTargeter where
  config : BudgetTargetConfig
  ranges : KnobBounds
  knobs : BudgetKnobs
  rng : SeededPrng
  iterations : UInt32
  lastStatus : Option BandStatus
  budgetEdge : Option BudgetEdge
  stalled : Bool
  nudged : Bool
  bestDistance : UInt32
  bestUtilizationBps : UInt32
  bestKnobs : BudgetKnobs
deriving DecidableEq, Repr

structure DictionaryEntry where
  dimension : MeterDimension
  value : UInt64
deriving DecidableEq, Repr

/-- `Ord::clamp`. -/
def clamp {α : Type} [LT α] [DecidableLT α] (x lo hi : α) : α := if x < lo then lo else if hi < x then hi else x

def BudgetKnobs.clamped (knobs : BudgetKnobs) (bounds : KnobBounds) : BudgetKnobs where
  loopCount := clamp knobs.loopCount bounds.loopCount.1 bounds.loopCount.2
  vecLen := clamp knobs.vecLen bounds.vecLen.1 bounds.vecLen.2
  stringLen := clamp knobs.stringLen bounds.stringLen.1 bounds.stringLen.2
  nestedDepth := clamp knobs.nestedDepth bounds.nestedDepth.1 bounds.nestedDepth.2

def saturatingAdd (a b : UInt64) : UInt64 :=
  if a.toNat + b.toNat < 2 ^ 64 then a + b else 18446744073709551615

def saturatingSub (a b : UInt64) : UInt64 := if b ≤ a then a - b else 0

def initialKnobsFromDictionary (entry : DictionaryEntry) (config : BudgetTargetConfig) : BudgetKnobs :=
  let axis := KnobAxis.fromDimension entry.dimension
  let (lo, hi) := knobBoundsPair config.bounds axis
  let limit := config.limits.limitFor entry.dimension
  let scaled :=
    if limit = 0 then hi
    else min (saturatingAdd lo (UInt64.ofNat ((saturatingSub hi lo).toNat * entry.value.toNat / limit.toNat))) hi
  let knobs : BudgetKnobs :=
    { loopCount := midpoint config.bounds.loopCount
      vecLen := midpointU32 config.bounds.vecLen
      stringLen := midpointU32 config.bounds.stringLen
      nestedDepth := midpointU32 config.bounds.nestedDepth }
  (setKnob knobs axis scaled).clamped config.bounds

namespace BudgetTargeter

def new (config : BudgetTargetConfig) (rngSeed : UInt64) : BudgetTargeter :=
  let knobs : BudgetKnobs :=
    { loopCount := midpoint config.bounds.loopCount
      vecLen := midpointU32 config.bounds.vecLen
      stringLen := midpointU32 config.bounds.stringLen
      nestedDepth := midpointU32 config.bounds.nestedDepth }
  { config
    ranges := config.bounds
    knobs
    rng := .new rngSeed
    iterations := 0
    lastStatus := none
    budgetEdge := none
    stalled := false
    nudged := false
    bestDistance := u32Max
    bestUtilizationBps := 0
    bestKnobs := knobs }

def withDictionarySeed (config : BudgetTargetConfig) (rngSeed : UInt64) (entry : DictionaryEntry) : BudgetTargeter :=
  let knobs := initialKnobsFromDictionary entry config
  { new config rngSeed with knobs, bestKnobs := knobs }

variable (targeter : BudgetTargeter)

def isConverged : Bool := targeter.budgetEdge.isSome

def isStalled : Bool := targeter.stalled

def isCapped : Bool := targeter.config.maxIterations ≤ targeter.iterations

def saturatingAddOne (n : UInt64) : UInt64 := if n = 18446744073709551615 then n else n + 1

def saturatingSubOne (n : UInt64) : UInt64 := if n = 0 then 0 else n - 1

def adjustAxis (axis : KnobAxis) (status : BandStatus) : BudgetTargeter × Bool :=
  let (lo, hi) := knobBoundsPair targeter.ranges axis
  let current := getKnob targeter.knobs axis
  match status with
  | .inBand => (targeter, false)
  | .belowTarget =>
    let newLo := max (saturatingAddOne current) lo
    if newLo > hi then (targeter, false)
    else
      ({ targeter with
          ranges := setKnobBoundsPair targeter.ranges axis newLo hi
          knobs := setKnob targeter.knobs axis (midpoint (newLo, hi)) }, true)
  | .aboveTarget =>
    if current ≤ lo then (targeter, false)
    else
      let newHi := min hi (current - 1)
      ({ targeter with
          ranges := setKnobBoundsPair targeter.ranges axis lo newHi
          knobs := setKnob targeter.knobs axis (midpoint (lo, newHi)) }, true)

/-- The knob of `axis` moved by one, if it changes and stays in its range. -/
def nudgedKnob (up : Bool) (axis : KnobAxis) : Option (KnobAxis × UInt64) :=
  let (lo, hi) := knobBoundsPair targeter.ranges axis
  let current := getKnob targeter.knobs axis
  let next := if up then saturatingAddOne current else saturatingSubOne current
  if next ≠ current ∧ lo ≤ next ∧ next ≤ hi then some (axis, next) else none

def nudgeAlong (rng : SeededPrng) (turns : List (Bool × KnobAxis)) : BudgetTargeter × Bool :=
  match turns.findSome? fun (up, axis) => targeter.nudgedKnob up axis with
  | some (axis, next) => ({ targeter with rng, knobs := setKnob targeter.knobs axis next }, true)
  | none => ({ targeter with rng }, false)

def nudgeWithinRanges : BudgetTargeter × Bool :=
  let (first, rng) := targeter.rng.nextU64
  let start := first.toNat % knobAxes.length
  let (second, rng) := rng.nextU64
  let firstUp : Bool := second % 2 = 0
  targeter.nudgeAlong rng ([firstUp, !firstUp].flatMap fun up => (List.range knobAxes.length).map fun offset =>
    (up, knobAxes.get ⟨(start + offset) % knobAxes.length, Nat.mod_lt _ (by decide)⟩))

def stallOrNudge : BudgetTargeter :=
  if targeter.nudged then { targeter with stalled := true }
  else
    let (nudged, moved) := targeter.nudgeWithinRanges
    if moved then { nudged with nudged := true } else { nudged with stalled := true }

variable (sample : ConsumptionSample)

def axisStatus : KnobAxis → BandStatus
  | .nestedDepth => targeter.config.band.status (sample.peakUtilizationBps targeter.config.limits)
  | .loopCount => targeter.config.band.status (sample.utilizationBps targeter.config.limits .cpu)
  | .vecLen => targeter.config.band.status (sample.utilizationBps targeter.config.limits .mem)
  | .stringLen => targeter.config.band.status (sample.utilizationBps targeter.config.limits .minBuiltin)

def adjustAxes : BudgetTargeter × Bool :=
  knobAxes.foldl
    (fun (acc : BudgetTargeter × Bool) axis =>
      let (next, moved) := acc.1.adjustAxis axis (targeter.axisStatus sample axis)
      (next, acc.2 || moved))
    (targeter, false)

def recordBest (peak : UInt32) : BudgetTargeter :=
  if absDiff peak limitBps < targeter.bestDistance then
    { targeter with
      bestDistance := absDiff peak limitBps
      bestUtilizationBps := peak
      bestKnobs := targeter.knobs }
  else targeter

def observe : BandStatus × BudgetTargeter :=
  if targeter.isConverged then (.inBand, targeter)
  else
    let limits := targeter.config.limits
    let band := targeter.config.band
    let peak := sample.peakUtilizationBps limits
    let status := band.status peak
    let best := targeter.recordBest peak
    let terminal := targeter.isConverged || targeter.stalled || targeter.isCapped
    let counted := if terminal then best else { best with iterations := best.iterations + 1 }
    match sample.inBandDimension limits band with
    | some (dimension, utilizationBps) =>
      (.inBand, { counted with budgetEdge := some ⟨dimension, utilizationBps⟩, lastStatus := some .inBand })
    | none =>
      if terminal then (status, { counted with lastStatus := some status })
      else
        let (adjusted, moved) := counted.adjustAxes sample
        let settled := if moved then adjusted else adjusted.stallOrNudge
        (status, { settled with lastStatus := some status })

end BudgetTargeter

end CrashLab.BudgetTargeting
