import CrashLab.BudgetSearch
import CrashLab.Histories

namespace CrashLab.BudgetBounds

open BudgetTargeting BudgetTargeter BudgetSearch Histories

section Words

variable {a b c : UInt64}

theorem le_max_right (a b : UInt64) : b ≤ max a b := by
  change b ≤ if a ≤ b then b else a
  split_ifs with h
  · exact UInt64.le_refl _
  · exact UInt64.le_of_lt (UInt64.not_le.mp h)

theorem min_le_left (a b : UInt64) : min a b ≤ a := by
  change (if a ≤ b then a else b) ≤ a
  split_ifs with h
  · exact UInt64.le_refl _
  · exact UInt64.le_of_lt (UInt64.not_le.mp h)

theorem le_min (ha : c ≤ a) (hb : c ≤ b) : c ≤ min a b := by
  change c ≤ if a ≤ b then a else b
  split_ifs
  · exact ha
  · exact hb

theorem le_sub_one (h : a < b) : a ≤ b - 1 := by
  rw [UInt64.lt_iff_toNat_lt] at h
  have hone : (1 : UInt64) ≤ b := by
    rw [UInt64.le_iff_toNat_le, UInt64.toNat_one]
    omega
  rw [UInt64.le_iff_toNat_le, UInt64.toNat_sub_of_le _ _ hone, UInt64.toNat_one]
  omega

end Words

section Ranges

variable {axis : KnobAxis} {t t' u : BudgetTargeter} {status : BandStatus} {lo hi : UInt64}

def Ranged (t : BudgetTargeter) : Prop :=
  ∀ axis, (knobBoundsPair t.ranges axis).1 ≤ getKnob t.knobs axis ∧ getKnob t.knobs axis ≤ (knobBoundsPair t.ranges axis).2

def Inside (ranges outer : KnobBounds) : Prop :=
  ∀ axis, (knobBoundsPair outer axis).1 ≤ (knobBoundsPair ranges axis).1 ∧
    (knobBoundsPair ranges axis).2 ≤ (knobBoundsPair outer axis).2

theorem Inside.refl (ranges : KnobBounds) : Inside ranges ranges := fun _ => ⟨UInt64.le_refl _, UInt64.le_refl _⟩

theorem Inside.trans {ranges middle outer : KnobBounds} (h : Inside ranges middle) (h' : Inside middle outer) :
    Inside ranges outer :=
  fun axis => ⟨UInt64.le_trans (h' axis).1 (h axis).1, UInt64.le_trans (h axis).2 (h' axis).2⟩

structure Shrinks (t t' : BudgetTargeter) : Prop where
  ranged : Ranged t'
  inside : Inside t'.ranges t.ranges
  config : t'.config = t.config
  iterations : t'.iterations = t.iterations
  budgetEdge : t'.budgetEdge = t.budgetEdge

theorem Shrinks.refl (h : Ranged t) : Shrinks t t := ⟨h, .refl _, rfl, rfl, rfl⟩

theorem Shrinks.trans (h : Shrinks t t') (h' : Shrinks t' u) : Shrinks t u :=
  ⟨h'.ranged, h'.inside.trans h.inside, h'.config.trans h.config, h'.iterations.trans h.iterations,
    h'.budgetEdge.trans h.budgetEdge⟩

theorem midpoint_between (h : lo ≤ hi) :
    lo ≤ BudgetTargeting.midpoint (lo, hi) ∧ BudgetTargeting.midpoint (lo, hi) ≤ hi := by
  have hmid := midpoint_toNat h
  rw [UInt64.le_iff_toNat_le] at h
  simp only [UInt64.le_iff_toNat_le, hmid, Bisection.Window.middle]
  omega

theorem narrow_shrinks (ranged : Ranged t) (hlo : (knobBoundsPair t.ranges axis).1 ≤ lo) (hle : lo ≤ hi)
    (hhi : hi ≤ (knobBoundsPair t.ranges axis).2) : Shrinks t (narrow t axis lo hi) := by
  have hfitsHi : Fits axis hi := (pair_snd_fits t.ranges axis).mono hhi
  have hmid := midpoint_between hle
  have hpair : knobBoundsPair (narrow t axis lo hi).ranges axis = (lo, hi) := pair_set (hfitsHi.mono hle) hfitsHi
  have hknob : getKnob (narrow t axis lo hi).knobs axis = BudgetTargeting.midpoint (lo, hi) :=
    getKnob_set (hfitsHi.mono hmid.2)
  refine ⟨?_, ?_, rfl, rfl, rfl⟩
  · intro other
    by_cases h : other = axis
    · rw [h, hpair, hknob]
      exact hmid
    · have hsame : SameAxis other t (narrow t axis lo hi) := narrow_sameAxis h
      rw [hsame.pair, hsame.knob]
      exact ranged other
  · intro other
    by_cases h : other = axis
    · rw [h, hpair]
      exact ⟨hlo, hhi⟩
    · have hsame : SameAxis other t (narrow t axis lo hi) := narrow_sameAxis h
      rw [hsame.pair]
      exact ⟨UInt64.le_refl _, UInt64.le_refl _⟩

theorem adjustAxis_shrinks (ranged : Ranged t) : Shrinks t (t.adjustAxis axis status).1 := by
  obtain ⟨hlow, hhigh⟩ := ranged axis
  cases status with
  | inBand => exact .refl ranged
  | belowTarget =>
    unfold adjustAxis
    dsimp only
    split_ifs with hmove
    · exact .refl ranged
    · apply narrow_shrinks ranged _ (UInt64.not_lt.mp hmove) (UInt64.le_refl _)
      exact le_max_right _ _
  | aboveTarget =>
    unfold adjustAxis
    dsimp only
    split_ifs with hmove
    · exact .refl ranged
    · have hle : (knobBoundsPair t.ranges axis).1 ≤ (knobBoundsPair t.ranges axis).2 := UInt64.le_trans hlow hhigh
      exact narrow_shrinks ranged (UInt64.le_refl _) (le_min hle (le_sub_one (UInt64.not_le.mp hmove))) (min_le_left _ _)

theorem foldl_turn_shrinks {statuses : KnobAxis → BandStatus} (axes : List KnobAxis) (acc : BudgetTargeter × Bool)
    (ranged : Ranged acc.1) : Shrinks acc.1 (axes.foldl (turn statuses) acc).1 := by
  induction axes generalizing acc with
  | nil => exact .refl ranged
  | cons axis axes ih =>
    have hturn : Shrinks acc.1 (turn statuses acc axis).1 := adjustAxis_shrinks ranged
    exact hturn.trans (ih _ hturn.ranged)

theorem adjustAxes_shrinks (ranged : Ranged t) (sample : ConsumptionSample) : Shrinks t (t.adjustAxes sample).1 :=
  foldl_turn_shrinks knobAxes (t, false) ranged

theorem nudgedKnob_some {up : Bool} {next : KnobAxis × UInt64} (h : t.nudgedKnob up axis = some next) :
    (knobBoundsPair t.ranges next.1).1 ≤ next.2 ∧ next.2 ≤ (knobBoundsPair t.ranges next.1).2 := by
  unfold nudgedKnob at h
  dsimp only at h
  generalize (if up then saturatingAddOne (getKnob t.knobs axis) else saturatingSubOne (getKnob t.knobs axis)) = value at h
  split_ifs at h with hin
  cases h
  exact hin.2

theorem set_shrinks (ranged : Ranged t) (rng : Prng.SeededPrng) {next : UInt64}
    (hlo : (knobBoundsPair t.ranges axis).1 ≤ next) (hhi : next ≤ (knobBoundsPair t.ranges axis).2) :
    Shrinks t { t with rng, knobs := setKnob t.knobs axis next } := by
  refine ⟨?_, .refl _, rfl, rfl, rfl⟩
  intro other
  by_cases h : other = axis
  · have hknob : getKnob (setKnob t.knobs axis next) axis = next :=
      getKnob_set ((pair_snd_fits t.ranges axis).mono hhi)
    rw [h, hknob]
    exact ⟨hlo, hhi⟩
  · rw [getKnob_set_of_ne h]
    exact ranged other

theorem nudgeAlong_shrinks (ranged : Ranged t) (rng : Prng.SeededPrng) (turns : List (Bool × KnobAxis)) :
    Shrinks t (t.nudgeAlong rng turns).1 := by
  unfold nudgeAlong
  split
  · rename_i axis next hnext
    obtain ⟨turn, -, hsome⟩ := List.exists_of_findSome?_eq_some hnext
    obtain ⟨hlo, hhi⟩ := nudgedKnob_some hsome
    exact set_shrinks ranged rng hlo hhi
  · exact ⟨ranged, .refl _, rfl, rfl, rfl⟩

theorem nudgeWithinRanges_shrinks (ranged : Ranged t) : Shrinks t t.nudgeWithinRanges.1 :=
  nudgeAlong_shrinks ranged _ _

theorem stallOrNudge_shrinks (ranged : Ranged t) : Shrinks t t.stallOrNudge := by
  have hnudge := nudgeWithinRanges_shrinks ranged
  unfold stallOrNudge
  generalize t.nudgeWithinRanges = nudge at hnudge
  obtain ⟨next, moved⟩ := nudge
  dsimp only at hnudge ⊢
  split_ifs
  · exact ⟨ranged, .refl _, rfl, rfl, rfl⟩
  · exact ⟨hnudge.ranged, hnudge.inside, hnudge.config, hnudge.iterations, hnudge.budgetEdge⟩
  · exact ⟨hnudge.ranged, hnudge.inside, hnudge.config, hnudge.iterations, hnudge.budgetEdge⟩

end Ranges

section Observations

variable {config : BudgetTargetConfig} {t : BudgetTargeter} {sample : ConsumptionSample}

structure Bounded (config : BudgetTargetConfig) (t : BudgetTargeter) : Prop where
  configured : t.config = config
  ranged : Ranged t
  inside : Inside t.ranges config.bounds
  iterations : t.iterations ≤ config.maxIterations

structure Observed (t : BudgetTargeter) (outcome : BandStatus × BudgetTargeter) : Prop where
  inside : Inside outcome.2.ranges t.ranges
  flagged : outcome.1 = .inBand ↔ outcome.2.budgetEdge.isSome = true
  frozen : t.isConverged = true → outcome.2 = t

theorem Bounded.shrink {t' : BudgetTargeter} (h : Bounded config t) (shrinks : Shrinks t t') : Bounded config t' :=
  ⟨shrinks.config.trans h.configured, shrinks.ranged, shrinks.inside.trans h.inside, shrinks.iterations ▸ h.iterations⟩

theorem recordBest_shrinks (ranged : Ranged t) (peak : UInt32) : Shrinks t (t.recordBest peak) := by
  unfold recordBest
  split_ifs
  · exact ⟨ranged, .refl _, rfl, rfl, rfl⟩
  · exact .refl ranged

theorem add_one_le {a b : UInt32} (h : a < b) : a + 1 ≤ b := by
  rw [UInt32.lt_iff_toNat_lt] at h
  have hb := b.toNat_lt
  rw [UInt32.le_iff_toNat_le, UInt32.toNat_add, UInt32.toNat_one, Nat.mod_eq_of_lt (by omega)]
  omega

theorem max_choice (a b : UInt32) : max a b = a ∨ max a b = b := by
  change (if a ≤ b then b else a) = a ∨ (if a ≤ b then b else a) = b
  split_ifs
  · exact Or.inr rfl
  · exact Or.inl rfl

theorem inBandDimension_of_peak {limits : MeteringLimits} {band : TargetBand}
    (h : band.status (sample.peakUtilizationBps limits) = .inBand) : (sample.inBandDimension limits band).isSome := by
  have hpeak : sample.peakUtilizationBps limits = max (max (sample.utilizationBps limits .cpu)
      (sample.utilizationBps limits .mem)) (sample.utilizationBps limits .minBuiltin) := rfl
  rw [hpeak] at h
  rcases max_choice (max (sample.utilizationBps limits .cpu) (sample.utilizationBps limits .mem))
    (sample.utilizationBps limits .minBuiltin) with hmax | hmax <;> rw [hmax] at h
  · rcases max_choice (sample.utilizationBps limits .cpu) (sample.utilizationBps limits .mem) with hmax | hmax <;>
      rw [hmax] at h <;> exact inBandDimension_isSome h
  · exact inBandDimension_isSome h

theorem observe_of_not_converged (h : t.isConverged = false) (terminal : Bool)
    (hterminal : terminal = (t.stalled || t.isCapped)) :
    t.observe sample =
      let status := t.config.band.status (sample.peakUtilizationBps t.config.limits)
      let best := t.recordBest (sample.peakUtilizationBps t.config.limits)
      let counted := if terminal then best else { best with iterations := best.iterations + 1 }
      match sample.inBandDimension t.config.limits t.config.band with
      | some (dimension, utilizationBps) =>
        (.inBand, { counted with budgetEdge := some ⟨dimension, utilizationBps⟩, lastStatus := some .inBand })
      | none =>
        if terminal then (status, { counted with lastStatus := some status })
        else
          let (adjusted, moved) := counted.adjustAxes sample
          let settled := if moved then adjusted else adjusted.stallOrNudge
          (status, { settled with lastStatus := some status }) := by
  subst hterminal
  rw [observe, h]
  rfl

theorem observe_bounded (h : Bounded config t) (sample : ConsumptionSample) :
    Bounded config (t.observe sample).2 ∧ Observed t (t.observe sample) := by
  cases hconverged : t.isConverged with
  | true =>
    have hobserve : t.observe sample = (.inBand, t) := by rw [observe, if_pos hconverged]
    rw [hobserve]
    exact ⟨h, .refl _, iff_of_true rfl hconverged, fun _ => rfl⟩
  | false =>
    have hedge : t.budgetEdge.isSome = false := hconverged
    have hlive : ¬ t.isConverged = true := ne_true_of_eq_false hconverged
    have hbest := recordBest_shrinks h.ranged (sample.peakUtilizationBps t.config.limits)
    rw [observe_of_not_converged hconverged (t.stalled || t.isCapped) rfl]
    dsimp only
    generalize t.recordBest (sample.peakUtilizationBps t.config.limits) = best at hbest
    have hcap : (t.stalled || t.isCapped) = false → t.iterations < config.maxIterations := by
      intro hlive
      rw [Bool.or_eq_false_iff] at hlive
      rw [← h.configured]
      exact UInt32.not_le.mp (of_decide_eq_false hlive.2)
    generalize (t.stalled || t.isCapped) = terminal at hcap
    set counted : BudgetTargeter := if terminal then best else { best with iterations := best.iterations + 1 }
      with hdef
    have hcounted : Bounded config counted ∧ counted.ranges = best.ranges ∧ counted.budgetEdge = best.budgetEdge := by
      cases terminal with
      | true => exact ⟨h.shrink hbest, rfl, rfl⟩
      | false =>
        refine ⟨⟨hbest.config.trans h.configured, hbest.ranged, hbest.inside.trans h.inside, ?_⟩, rfl, rfl⟩
        have hlt := hcap rfl
        rw [← hbest.iterations] at hlt
        exact add_one_le hlt
    obtain ⟨hbounded, hranges, hsame⟩ := hcounted
    clear_value counted
    have hnone : counted.budgetEdge.isSome = false := by rw [hsame, hbest.budgetEdge, hedge]
    cases hband : sample.inBandDimension t.config.limits t.config.band with
    | some found =>
      refine ⟨⟨hbounded.configured, hbounded.ranged, hbounded.inside, hbounded.iterations⟩, ?_, iff_of_true rfl rfl, ?_⟩
      · exact hranges ▸ hbest.inside
      · exact fun h => absurd h hlive
    | none =>
      have hstatus : t.config.band.status (sample.peakUtilizationBps t.config.limits) ≠ .inBand := by
        intro hin
        have hsome := inBandDimension_of_peak hin
        rw [hband] at hsome
        cases hsome
      cases terminal with
      | true =>
        refine ⟨⟨hbounded.configured, hbounded.ranged, hbounded.inside, hbounded.iterations⟩, ?_, ?_, ?_⟩
        · exact hranges ▸ hbest.inside
        · exact iff_of_false hstatus (ne_true_of_eq_false hnone)
        · exact fun h => absurd h hlive
      | false =>
        have hadjusted := adjustAxes_shrinks hbounded.ranged sample
        generalize counted.adjustAxes sample = adjusted at hadjusted
        have hsettled : Shrinks counted (if adjusted.2 then adjusted.1 else adjusted.1.stallOrNudge) := by
          split_ifs
          · exact hadjusted
          · exact hadjusted.trans (stallOrNudge_shrinks hadjusted.ranged)
        have hafter := hbounded.shrink hsettled
        refine ⟨⟨hafter.configured, hafter.ranged, hafter.inside, hafter.iterations⟩, ?_, ?_, ?_⟩
        · exact hsettled.inside.trans (hranges ▸ hbest.inside)
        · refine iff_of_false hstatus ?_
          have hgone : (if adjusted.2 then adjusted.1 else adjusted.1.stallOrNudge).budgetEdge.isSome = false := by
            rw [hsettled.budgetEdge, hnone]
          exact ne_true_of_eq_false hgone
        · exact fun h => absurd h hlive

def Started (config : BudgetTargetConfig) (t : BudgetTargeter) : Prop :=
  (∃ rngSeed, t = new config rngSeed) ∨ ∃ rngSeed entry, t = withDictionarySeed config rngSeed entry

theorem bounds_le_of_isValid (valid : config.isValid = true) (axis : KnobAxis) :
    (knobBoundsPair config.bounds axis).1 ≤ (knobBoundsPair config.bounds axis).2 := by
  simp only [BudgetTargetConfig.isValid, KnobBounds.isValid, Bool.and_eq_true, decide_eq_true_eq] at valid
  cases axis with
  | loopCount => exact valid.1.1.1.1.1.1.1.1.1
  | vecLen => exact valid.1.1.1.1.1.1.1.2
  | stringLen => exact valid.1.1.1.1.1.2
  | nestedDepth => exact valid.1.1.1.2

theorem clamp_between {α : Type} [LT α] [LE α] [DecidableLT α] (refl : ∀ a : α, a ≤ a)
    (le_of_not_lt : ∀ {a b : α}, ¬ a < b → b ≤ a) {x lo hi : α} (h : lo ≤ hi) :
    lo ≤ clamp x lo hi ∧ clamp x lo hi ≤ hi := by
  unfold clamp
  split_ifs with hlo hhi
  · exact ⟨refl lo, h⟩
  · exact ⟨h, refl hi⟩
  · exact ⟨le_of_not_lt hlo, le_of_not_lt hhi⟩

theorem clamp_u32_between {x lo hi : UInt32} (h : lo.toUInt64 ≤ hi.toUInt64) :
    lo.toUInt64 ≤ (clamp x lo hi).toUInt64 ∧ (clamp x lo hi).toUInt64 ≤ hi.toUInt64 := by
  have hle : ∀ a b : UInt32, a.toUInt64 ≤ b.toUInt64 ↔ a ≤ b := by
    intro a b
    rw [UInt64.le_iff_toNat_le, UInt32.toNat_toUInt64, UInt32.toNat_toUInt64, UInt32.le_iff_toNat_le]
  rw [hle] at h
  rw [hle, hle]
  exact clamp_between UInt32.le_refl UInt32.not_lt.mp h

theorem bounded_of_started (valid : config.isValid = true) (h : Started config t) : Bounded config t := by
  have hbounds := bounds_le_of_isValid valid
  rcases h with ⟨rngSeed, rfl⟩ | ⟨rngSeed, entry, rfl⟩
  · refine ⟨rfl, ?_, .refl _, UInt32.zero_le⟩
    intro axis
    rw [new_getKnob (hbounds axis)]
    exact midpoint_between (hbounds axis)
  · refine ⟨rfl, ?_, .refl _, UInt32.zero_le⟩
    intro axis
    have h := hbounds axis
    cases axis with
    | loopCount => exact clamp_between UInt64.le_refl UInt64.not_lt.mp h
    | vecLen | stringLen | nestedDepth => exact clamp_u32_between h

def observeAll (start : BudgetTargeter) (samples : List ConsumptionSample) : BudgetTargeter :=
  run (fun t sample => (t.observe sample).2) start samples

theorem observeAll_bounded (config : BudgetTargetConfig) (valid : config.isValid = true) (start : BudgetTargeter)
    (started : Started config start) (samples : List ConsumptionSample) (sample : ConsumptionSample) :
    Bounded config (observeAll start samples) ∧
      Observed (observeAll start samples) ((observeAll start samples).observe sample) := by
  have hbounded : Bounded config (observeAll start samples) := by
    unfold observeAll
    apply run_invariant _ (bounded_of_started valid started)
    exact fun t sample h => (observe_bounded h sample).1
  exact ⟨hbounded, (observe_bounded hbounded sample).2⟩

theorem default_bounded :
    ((observeAll (new .default 42) [⟨95, 10, 0⟩, ⟨200000000, 40, 3⟩]).observe ⟨99000000, 40, 1⟩).1 = .inBand ∧
      Bounded .default (observeAll (new .default 42) [⟨95, 10, 0⟩, ⟨200000000, 40, 3⟩]) ∧
      Observed (observeAll (new .default 42) [⟨95, 10, 0⟩, ⟨200000000, 40, 3⟩])
        ((observeAll (new .default 42) [⟨95, 10, 0⟩, ⟨200000000, 40, 3⟩]).observe ⟨99000000, 40, 1⟩) := by
  refine ⟨by decide +kernel, ?_⟩
  exact observeAll_bounded .default BudgetTargetConfig.default_isValid _ (Or.inl ⟨42, rfl⟩) _ _

end Observations

end CrashLab.BudgetBounds
