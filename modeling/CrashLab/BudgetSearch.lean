import CrashLab.Bisection
import CrashLab.BudgetTargeting

namespace CrashLab.BudgetSearch

open BudgetTargeting BudgetTargeter Bisection

section Words

variable {lo hi current x : UInt64}

theorem midpoint_toNat (h : lo.toNat ≤ hi.toNat) :
    (BudgetTargeting.midpoint (lo, hi)).toNat = (Window.mk lo.toNat hi.toNat).middle := by
  have hhi := hi.toNat_lt
  simp only [BudgetTargeting.midpoint, Window.middle, UInt64.toNat_add, UInt64.toNat_div,
    UInt64.toNat_sub_of_le _ _ h, UInt64.reduceToNat]
  omega

theorem midpointU32_toUInt64 {lo hi : UInt32} (h : lo.toNat ≤ hi.toNat) :
    (midpointU32 (lo, hi)).toUInt64 = BudgetTargeting.midpoint (lo.toUInt64, hi.toUInt64) := by
  have hhi := hi.toNat_lt
  apply UInt64.toNat_inj.mp
  rw [midpoint_toNat (by simpa only [UInt32.toNat_toUInt64] using h)]
  simp only [midpointU32, Window.middle, UInt32.toNat_toUInt64, UInt32.toNat_add, UInt32.toNat_div,
    UInt32.toNat_sub_of_le _ _ h, UInt32.reduceToNat]
  omega

theorem saturatingAddOne_toNat (h : current.toNat < hi.toNat) :
    (saturatingAddOne current).toNat = current.toNat + 1 := by
  have hhi := hi.toNat_lt
  have hne : current ≠ 18446744073709551615 := by
    rintro rfl
    simp only [UInt64.reduceToNat] at h
    omega
  simp only [saturatingAddOne, hne, ↓reduceIte, UInt64.toNat_add, UInt64.reduceToNat]
  omega

theorem max_eq_of_le (h : x.toNat ≤ current.toNat) : max current x = current := by
  change (if current ≤ x then x else current) = current
  split_ifs with hle
  · exact UInt64.toNat_inj.mp (Nat.le_antisymm h hle)
  · rfl

theorem min_eq_of_le (h : x.toNat ≤ hi.toNat) : min hi x = x := by
  change (if hi ≤ x then hi else x) = x
  split_ifs with hle
  · exact UInt64.toNat_inj.mp (Nat.le_antisymm hle h)
  · rfl

theorem toUInt64_toUInt32 (h : x.toNat < 2 ^ 32) : x.toUInt32.toUInt64 = x := by
  apply UInt64.toNat_inj.mp
  rw [UInt32.toNat_toUInt64, UInt64.toNat_toUInt32]
  exact Nat.mod_eq_of_lt h

end Words

section Axes

variable {axis other : KnobAxis} {bounds : KnobBounds} {knobs : BudgetKnobs} {lo hi x : UInt64}

/-- `x` is in the range of the type in which the knob of `axis` is kept. -/
def Fits (axis : KnobAxis) (x : UInt64) : Prop := axis ≠ .loopCount → x.toNat < 2 ^ 32

theorem Fits.mono (h : Fits axis x) (hle : lo.toNat ≤ x.toNat) : Fits axis lo :=
  fun hne => Nat.lt_of_le_of_lt hle (h hne)

theorem pair_snd_fits (bounds : KnobBounds) (axis : KnobAxis) : Fits axis (knobBoundsPair bounds axis).2 := by
  intro hne
  cases axis with
  | loopCount => exact absurd rfl hne
  | vecLen | stringLen | nestedDepth => exact UInt32.toNat_lt _

theorem pair_set (hlo : Fits axis lo) (hhi : Fits axis hi) :
    knobBoundsPair (setKnobBoundsPair bounds axis lo hi) axis = (lo, hi) := by
  cases axis with
  | loopCount => rfl
  | vecLen | stringLen | nestedDepth =>
    simp only [knobBoundsPair, setKnobBoundsPair, toUInt64_toUInt32 (hlo nofun), toUInt64_toUInt32 (hhi nofun)]

theorem pair_set_of_ne (h : other ≠ axis) :
    knobBoundsPair (setKnobBoundsPair bounds axis lo hi) other = knobBoundsPair bounds other := by
  cases axis <;> cases other <;> first | rfl | exact absurd rfl h

theorem getKnob_set (h : Fits axis x) : getKnob (setKnob knobs axis x) axis = x := by
  cases axis with
  | loopCount => rfl
  | vecLen | stringLen | nestedDepth => exact toUInt64_toUInt32 (h nofun)

theorem getKnob_set_of_ne (h : other ≠ axis) : getKnob (setKnob knobs axis x) other = getKnob knobs other := by
  cases axis <;> cases other <;> first | rfl | exact absurd rfl h

end Axes

section Turns

variable {axis other : KnobAxis} {t t' u : BudgetTargeter} {v : ℕ} {lo hi : UInt64} {status : BandStatus}

def axisWindow (t : BudgetTargeter) (axis : KnobAxis) : Window where
  lo := (knobBoundsPair t.ranges axis).1.toNat
  hi := (knobBoundsPair t.ranges axis).2.toNat

structure Aimed (axis : KnobAxis) (v : ℕ) (t : BudgetTargeter) : Prop where
  has : (axisWindow t axis).Has v
  centred : (getKnob t.knobs axis).toNat = (axisWindow t axis).middle

structure SameAxis (axis : KnobAxis) (t t' : BudgetTargeter) : Prop where
  pair : knobBoundsPair t'.ranges axis = knobBoundsPair t.ranges axis
  knob : getKnob t'.knobs axis = getKnob t.knobs axis

structure SameSearch (t t' : BudgetTargeter) : Prop where
  config : t'.config = t.config
  iterations : t'.iterations = t.iterations
  budgetEdge : t'.budgetEdge = t.budgetEdge
  stalled : t'.stalled = t.stalled

theorem SameAxis.refl : SameAxis axis t t := ⟨rfl, rfl⟩

theorem SameAxis.trans (h : SameAxis axis t t') (h' : SameAxis axis t' u) : SameAxis axis t u :=
  ⟨h'.pair.trans h.pair, h'.knob.trans h.knob⟩

theorem SameSearch.refl : SameSearch t t := ⟨rfl, rfl, rfl, rfl⟩

theorem SameSearch.trans (h : SameSearch t t') (h' : SameSearch t' u) : SameSearch t u :=
  ⟨h'.config.trans h.config, h'.iterations.trans h.iterations, h'.budgetEdge.trans h.budgetEdge,
    h'.stalled.trans h.stalled⟩

theorem SameAxis.window (h : SameAxis axis t t') : axisWindow t' axis = axisWindow t axis := by
  rw [axisWindow, h.pair, axisWindow]

theorem Aimed.of_sameAxis (aimed : Aimed axis v t) (h : SameAxis axis t t') : Aimed axis v t' := by
  constructor
  · rw [h.window]
    exact aimed.has
  · rw [h.window, h.knob]
    exact aimed.centred

def narrow (t : BudgetTargeter) (axis : KnobAxis) (lo hi : UInt64) : BudgetTargeter :=
  { t with
    ranges := setKnobBoundsPair t.ranges axis lo hi
    knobs := setKnob t.knobs axis (BudgetTargeting.midpoint (lo, hi)) }

theorem narrow_sameSearch : SameSearch t (narrow t axis lo hi) := ⟨rfl, rfl, rfl, rfl⟩

theorem narrow_sameAxis (h : other ≠ axis) : SameAxis other t (narrow t axis lo hi) :=
  ⟨pair_set_of_ne h, getKnob_set_of_ne h⟩

theorem narrow_aimed {w : Window} (has : w.Has v) (hlo : lo.toNat = w.lo) (hhi : hi.toNat = w.hi)
    (fits : Fits axis hi) : axisWindow (narrow t axis lo hi) axis = w ∧ Aimed axis v (narrow t axis lo hi) := by
  have hle : lo.toNat ≤ hi.toNat := by
    rw [hlo, hhi]
    exact has.1.trans has.2
  have hw : Window.mk lo.toNat hi.toNat = w := Window.ext hlo hhi
  have hpair : knobBoundsPair (narrow t axis lo hi).ranges axis = (lo, hi) := pair_set (fits.mono hle) fits
  have hmid : (BudgetTargeting.midpoint (lo, hi)).toNat = w.middle := by rw [midpoint_toNat hle, hw]
  have hknob : getKnob (narrow t axis lo hi).knobs axis = BudgetTargeting.midpoint (lo, hi) := by
    apply getKnob_set
    apply fits.mono
    rw [hmid, hhi]
    exact Window.middle_le has
  have hwindow : axisWindow (narrow t axis lo hi) axis = w := by rw [axisWindow, hpair, hw]
  refine ⟨hwindow, ?_, ?_⟩
  · rw [hwindow]
    exact has
  · rw [hwindow, hknob, hmid]

theorem adjustAxis_cases (t : BudgetTargeter) (axis : KnobAxis) (status : BandStatus) :
    t.adjustAxis axis status = (t, false) ∨
      ∃ lo hi, t.adjustAxis axis status = (narrow t axis lo hi, true) := by
  unfold adjustAxis
  cases status with
  | inBand => exact Or.inl rfl
  | belowTarget | aboveTarget =>
    dsimp only
    split_ifs
    · exact Or.inl rfl
    · exact Or.inr ⟨_, _, rfl⟩

theorem adjustAxis_sameSearch : SameSearch t (t.adjustAxis axis status).1 := by
  obtain h | ⟨lo, hi, h⟩ := adjustAxis_cases t axis status <;> rw [h]
  · exact .refl
  · exact narrow_sameSearch

theorem adjustAxis_sameAxis (h : other ≠ axis) : SameAxis other t (t.adjustAxis axis status).1 := by
  obtain h' | ⟨lo, hi, h'⟩ := adjustAxis_cases t axis status <;> rw [h']
  · exact .refl
  · exact narrow_sameAxis h

theorem adjustAxis_below (aimed : Aimed axis v t) (hlt : (axisWindow t axis).middle < v) :
    (t.adjustAxis axis .belowTarget).2 = true ∧
      axisWindow (t.adjustAxis axis .belowTarget).1 axis = (axisWindow t axis).above ∧
      Aimed axis v (t.adjustAxis axis .belowTarget).1 := by
  have hhi : v ≤ (knobBoundsPair t.ranges axis).2.toNat := aimed.has.2
  have hcurrent : (getKnob t.knobs axis).toNat < (knobBoundsPair t.ranges axis).2.toNat := by
    rw [aimed.centred]
    exact Nat.lt_of_lt_of_le hlt hhi
  have hlo : (knobBoundsPair t.ranges axis).1.toNat ≤ (getKnob t.knobs axis).toNat := by
    rw [aimed.centred]
    exact Window.le_middle (w := axisWindow t axis)
  have hsucc := saturatingAddOne_toNat hcurrent
  have hmax : max (saturatingAddOne (getKnob t.knobs axis)) (knobBoundsPair t.ranges axis).1 =
      saturatingAddOne (getKnob t.knobs axis) := by
    apply max_eq_of_le
    omega
  have hmove : ¬saturatingAddOne (getKnob t.knobs axis) > (knobBoundsPair t.ranges axis).2 := by
    rw [gt_iff_lt, UInt64.lt_iff_toNat_lt]
    omega
  have heq : t.adjustAxis axis .belowTarget =
      (narrow t axis (saturatingAddOne (getKnob t.knobs axis)) (knobBoundsPair t.ranges axis).2, true) := by
    simp only [adjustAxis, hmax, hmove, ↓reduceIte, narrow]
  rw [heq]
  refine ⟨rfl, narrow_aimed (Window.above_has aimed.has hlt) ?_ rfl (pair_snd_fits _ _)⟩
  rw [hsucc, aimed.centred]
  rfl

theorem adjustAxis_above (aimed : Aimed axis v t) (hlt : v < (axisWindow t axis).middle) :
    (t.adjustAxis axis .aboveTarget).2 = true ∧
      axisWindow (t.adjustAxis axis .aboveTarget).1 axis = (axisWindow t axis).below ∧
      Aimed axis v (t.adjustAxis axis .aboveTarget).1 := by
  have hlo : (knobBoundsPair t.ranges axis).1.toNat ≤ v := aimed.has.1
  have hhi : (getKnob t.knobs axis).toNat ≤ (knobBoundsPair t.ranges axis).2.toNat := by
    rw [aimed.centred]
    exact Window.middle_le aimed.has
  rw [← aimed.centred] at hlt
  have hmove : ¬getKnob t.knobs axis ≤ (knobBoundsPair t.ranges axis).1 := by
    rw [UInt64.le_iff_toNat_le]
    omega
  have hone : (1 : UInt64) ≤ getKnob t.knobs axis := by
    rw [UInt64.le_iff_toNat_le, UInt64.toNat_one]
    omega
  have hpred : (getKnob t.knobs axis - 1).toNat = (getKnob t.knobs axis).toNat - 1 :=
    UInt64.toNat_sub_of_le _ _ hone
  have hmin : min (knobBoundsPair t.ranges axis).2 (getKnob t.knobs axis - 1) = getKnob t.knobs axis - 1 := by
    apply min_eq_of_le
    omega
  have heq : t.adjustAxis axis .aboveTarget =
      (narrow t axis (knobBoundsPair t.ranges axis).1 (getKnob t.knobs axis - 1), true) := by
    simp only [adjustAxis, hmin, hmove, ↓reduceIte, narrow]
  have hfits : Fits axis (getKnob t.knobs axis - 1) := by
    apply (pair_snd_fits t.ranges axis).mono
    omega
  rw [aimed.centred] at hlt hpred
  rw [heq]
  exact ⟨rfl, narrow_aimed (Window.below_has aimed.has hlt) rfl hpred hfits⟩

def turn (status : KnobAxis → BandStatus) (acc : BudgetTargeter × Bool) (axis : KnobAxis) :
    BudgetTargeter × Bool :=
  ((acc.1.adjustAxis axis (status axis)).1, acc.2 || (acc.1.adjustAxis axis (status axis)).2)

theorem adjustAxes_eq (t : BudgetTargeter) (sample : ConsumptionSample) :
    t.adjustAxes sample = knobAxes.foldl (turn (t.axisStatus sample)) (t, false) := rfl

variable {statuses : KnobAxis → BandStatus}

theorem foldl_turn_sameSearch (axes : List KnobAxis) (acc : BudgetTargeter × Bool) :
    SameSearch acc.1 (axes.foldl (turn statuses) acc).1 := by
  induction axes generalizing acc with
  | nil => exact .refl
  | cons axis axes ih =>
    have hturn : SameSearch acc.1 (turn statuses acc axis).1 := adjustAxis_sameSearch
    exact hturn.trans (ih _)

theorem foldl_turn_sameAxis (statuses : KnobAxis → BandStatus) {axes : List KnobAxis} (h : axis ∉ axes)
    (acc : BudgetTargeter × Bool) :
    SameAxis axis acc.1 (axes.foldl (turn statuses) acc).1 := by
  induction axes generalizing acc with
  | nil => exact .refl
  | cons other axes ih =>
    rw [List.mem_cons, not_or] at h
    have hturn : SameAxis axis acc.1 (turn statuses acc other).1 := adjustAxis_sameAxis h.1
    exact hturn.trans (ih h.2 _)

theorem foldl_turn_moved {acc : BudgetTargeter × Bool} (h : acc.2 = true) (axes : List KnobAxis) :
    (axes.foldl (turn statuses) acc).2 = true := by
  induction axes generalizing acc with
  | nil => exact h
  | cons axis axes ih =>
    apply ih
    rw [turn, h, Bool.true_or]

/-- The middle of the axis' window is on the side of `v` that the status says. -/
def Sides (status : BandStatus) (w : Window) (v : ℕ) : Prop :=
  status = .belowTarget ∧ w.middle < v ∨ status = .aboveTarget ∧ v < w.middle

theorem adjustAxis_halves (aimed : Aimed axis v t) (h : Sides status (axisWindow t axis) v) :
    (t.adjustAxis axis status).2 = true ∧
      (axisWindow (t.adjustAxis axis status).1 axis).size ≤ (axisWindow t axis).size / 2 ∧
      Aimed axis v (t.adjustAxis axis status).1 := by
  obtain ⟨rfl, hlt⟩ | ⟨rfl, hlt⟩ := h
  · obtain ⟨hmoved, hwindow, haimed⟩ := adjustAxis_below aimed hlt
    rw [hwindow]
    exact ⟨hmoved, Window.above_size_le, haimed⟩
  · obtain ⟨hmoved, hwindow, haimed⟩ := adjustAxis_above aimed hlt
    rw [hwindow]
    exact ⟨hmoved, Window.below_size_le aimed.has hlt, haimed⟩

theorem adjustAxes_halves (sample : ConsumptionSample) (aimed : Aimed axis v t)
    (h : Sides (t.axisStatus sample axis) (axisWindow t axis) v) :
    (t.adjustAxes sample).2 = true ∧
      (axisWindow (t.adjustAxes sample).1 axis).size ≤ (axisWindow t axis).size / 2 ∧
      Aimed axis v (t.adjustAxes sample).1 := by
  have hmem : axis ∈ knobAxes := by cases axis <;> decide
  have hnodup : knobAxes.Nodup := by decide
  obtain ⟨before, after, hsplit⟩ := List.append_of_mem hmem
  rw [hsplit, List.nodup_middle, List.nodup_cons, List.mem_append, not_or] at hnodup
  obtain ⟨⟨hbefore, hafter⟩, -⟩ := hnodup
  rw [adjustAxes_eq, hsplit, List.foldl_append, List.foldl_cons]
  set reached := before.foldl (turn (t.axisStatus sample)) (t, false) with hreached
  have hsame : SameAxis axis t reached.1 := foldl_turn_sameAxis _ hbefore (t, false)
  obtain ⟨hmoved, hsize, haimed⟩ := adjustAxis_halves (aimed.of_sameAxis hsame) (by rwa [hsame.window])
  have hrest : SameAxis axis (turn (t.axisStatus sample) reached axis).1 _ :=
    foldl_turn_sameAxis (t.axisStatus sample) hafter _
  refine ⟨?_, ?_, haimed.of_sameAxis hrest⟩
  · apply foldl_turn_moved
    rw [turn, hmoved, Bool.or_true]
  · rw [hrest.window, ← hsame.window]
    exact hsize

end Turns

section Bands

variable {band : TargetBand} {limits : MeteringLimits} {sample sample' : ConsumptionSample}
  {dimension : MeterDimension}

theorem utilizationBpsOf_mono (limit : UInt64) {a b : UInt64} (h : a ≤ b) :
    utilizationBpsOf a limit ≤ utilizationBpsOf b limit := by
  have hle : a.toNat ≤ b.toNat := h
  unfold utilizationBpsOf
  split_ifs with hlimit ha hb hb
  · exact UInt32.le_refl _
  · exact UInt32.zero_le
  · subst hb
    exact absurd (UInt64.toNat_inj.mp (Nat.le_zero.mp hle)) ha
  · exact UInt32.le_refl _
  · have hmul : a.toNat * limitBps.toNat / limit.toNat ≤ b.toNat * limitBps.toNat / limit.toNat :=
      Nat.div_le_div_right (Nat.mul_le_mul_right _ hle)
    rw [UInt32.le_iff_toNat_le, UInt32.toNat_ofNat', UInt32.toNat_ofNat',
      Nat.mod_eq_of_lt (Nat.lt_of_le_of_lt (Nat.min_le_right ..) (by decide)),
      Nat.mod_eq_of_lt (Nat.lt_of_le_of_lt (Nat.min_le_right ..) (by decide))]
    omega

theorem lt_of_status_below {u u' : UInt32} (h : band.status u = .belowTarget) (h' : band.status u' = .inBand) :
    u < u' := by
  unfold TargetBand.status at h h'
  split_ifs at h h' with hlow hlow' hhigh'
  exact UInt32.lt_of_lt_of_le hlow (UInt32.not_lt.mp hlow')

theorem lt_of_status_above {u u' : UInt32} (h : band.status u = .aboveTarget) (h' : band.status u' = .inBand) :
    u' < u := by
  unfold TargetBand.status at h h'
  split_ifs at h h' with hlow hhigh hlow' hhigh'
  exact UInt32.lt_of_le_of_lt (UInt32.not_lt.mp hhigh') hhigh

theorem closerInBand_isSome {best : Option (MeterDimension × UInt32)} {candidate : MeterDimension × UInt32}
    (h : best.isSome ∨ band.status candidate.2 = .inBand) :
    (ConsumptionSample.closerInBand band best candidate).isSome := by
  unfold ConsumptionSample.closerInBand
  cases best with
  | none =>
    have hin : band.status candidate.2 = .inBand := by simpa using h
    simp only [hin, ne_eq, not_true_eq_false, ↓reduceIte, Option.isSome_some]
  | some best =>
    dsimp only
    split_ifs <;> rfl

theorem foldl_closerInBand_isSome (candidates : List (MeterDimension × UInt32))
    (best : Option (MeterDimension × UInt32))
    (h : best.isSome ∨ ∃ candidate ∈ candidates, band.status candidate.2 = .inBand) :
    (candidates.foldl (ConsumptionSample.closerInBand band) best).isSome := by
  induction candidates generalizing best with
  | nil => simpa only [List.foldl_nil, List.not_mem_nil, false_and, exists_false, or_false] using h
  | cons candidate candidates ih =>
    apply ih
    simp only [List.mem_cons, exists_eq_or_imp] at h
    obtain hbest | hin | hrest := h
    · exact Or.inl (closerInBand_isSome (Or.inl hbest))
    · exact Or.inl (closerInBand_isSome (Or.inr hin))
    · exact Or.inr hrest

theorem inBandDimension_isSome (h : band.status (sample.utilizationBps limits dimension) = .inBand) :
    (sample.inBandDimension limits band).isSome := by
  apply foldl_closerInBand_isSome
  refine Or.inr ⟨(dimension, sample.utilizationBps limits dimension), ?_, h⟩
  cases dimension <;> simp only [ConsumptionSample.utilizationPerDimension, List.mem_cons, true_or, or_true]

theorem closerInBand_some {best : Option (MeterDimension × UInt32)} {candidate found : MeterDimension × UInt32}
    (h : ConsumptionSample.closerInBand band best candidate = some found) :
    best = some found ∨ candidate = found ∧ band.status found.2 = .inBand := by
  unfold ConsumptionSample.closerInBand at h
  by_cases hin : band.status candidate.2 = .inBand
  · rw [if_neg (not_not.mpr hin)] at h
    cases best with
    | none =>
      cases h
      exact Or.inr ⟨rfl, hin⟩
    | some best =>
      dsimp only at h
      split_ifs at h
      · cases h
        exact Or.inr ⟨rfl, hin⟩
      · exact Or.inl h
  · rw [if_pos hin] at h
    exact Or.inl h

theorem foldl_closerInBand_some (candidates : List (MeterDimension × UInt32)) {found : MeterDimension × UInt32}
    (best : Option (MeterDimension × UInt32))
    (h : candidates.foldl (ConsumptionSample.closerInBand band) best = some found) :
    best = some found ∨ found ∈ candidates ∧ band.status found.2 = .inBand := by
  induction candidates generalizing best with
  | nil => exact Or.inl h
  | cons candidate candidates ih =>
    rcases ih _ h with hfirst | ⟨hmem, hin⟩
    · rcases closerInBand_some hfirst with hbest | ⟨rfl, hin⟩
      · exact Or.inl hbest
      · exact Or.inr ⟨List.mem_cons_self, hin⟩
    · exact Or.inr ⟨List.mem_cons_of_mem _ hmem, hin⟩

theorem inBandDimension_some {utilizationBps : UInt32}
    (h : sample.inBandDimension limits band = some (dimension, utilizationBps)) :
    utilizationBps = sample.utilizationBps limits dimension ∧ band.status utilizationBps = .inBand := by
  rcases foldl_closerInBand_some _ none h with hnone | ⟨hmem, hin⟩
  · cases hnone
  · refine ⟨?_, hin⟩
    simp only [ConsumptionSample.utilizationPerDimension, List.mem_cons, Prod.mk.injEq, List.not_mem_nil,
      or_false] at hmem
    rcases hmem with ⟨rfl, rfl⟩ | ⟨rfl, rfl⟩ | ⟨rfl, rfl⟩
    · rfl
    · rfl
    · rfl

end Bands

/-- Each tracked cost is a non-decreasing function of its own knob, whatever the other knobs are. -/
structure Meter where
  measure : BudgetKnobs → ConsumptionSample
  mono : ∀ (dimension : MeterDimension) (knobs knobs' : BudgetKnobs),
    getKnob knobs (.fromDimension dimension) ≤ getKnob knobs' (.fromDimension dimension) →
      (measure knobs).valueFor dimension ≤ (measure knobs').valueFor dimension

section Search

variable {meter : Meter} {config : BudgetTargetConfig} {dimension : MeterDimension} {target : BudgetKnobs}
  {t : BudgetTargeter}

def measured (meter : Meter) (t : BudgetTargeter) : BudgetTargeter := (t.observe (meter.measure t.knobs)).2

/-- The knob of `dimension` in `target` puts that dimension inside the band. -/
def HitsBand (meter : Meter) (config : BudgetTargetConfig) (dimension : MeterDimension)
    (target : BudgetKnobs) : Prop :=
  config.band.status ((meter.measure target).utilizationBps config.limits dimension) = .inBand

theorem knob_lt_of_below {knobs : BudgetKnobs} (hits : HitsBand meter config dimension target)
    (h : config.band.status ((meter.measure knobs).utilizationBps config.limits dimension) = .belowTarget) :
    getKnob knobs (.fromDimension dimension) < getKnob target (.fromDimension dimension) := by
  rw [← UInt64.not_le]
  intro hle
  have hmono := utilizationBpsOf_mono (config.limits.limitFor dimension) (meter.mono dimension _ _ hle)
  exact UInt32.not_le.mpr (lt_of_status_below h hits) hmono

theorem knob_lt_of_above {knobs : BudgetKnobs} (hits : HitsBand meter config dimension target)
    (h : config.band.status ((meter.measure knobs).utilizationBps config.limits dimension) = .aboveTarget) :
    getKnob target (.fromDimension dimension) < getKnob knobs (.fromDimension dimension) := by
  rw [← UInt64.not_le]
  intro hle
  have hmono := utilizationBpsOf_mono (config.limits.limitFor dimension) (meter.mono dimension _ _ hle)
  exact UInt32.not_le.mpr (lt_of_status_above h hits) hmono

theorem axisStatus_fromDimension (t : BudgetTargeter) (sample : ConsumptionSample) (dimension : MeterDimension) :
    t.axisStatus sample (.fromDimension dimension) =
      t.config.band.status (sample.utilizationBps t.config.limits dimension) := by
  cases dimension <;> rfl

structure Searching (config : BudgetTargetConfig) (axis : KnobAxis) (v : ℕ) (t : BudgetTargeter) : Prop where
  config : t.config = config
  unstalled : t.stalled = false
  aimed : Aimed axis v t

theorem sides_of_not_inBand (hits : HitsBand meter config dimension target)
    (searching : Searching config (.fromDimension dimension)
      (getKnob target (.fromDimension dimension)).toNat t)
    (h : (meter.measure t.knobs).inBandDimension config.limits config.band = none) :
    Sides (t.axisStatus (meter.measure t.knobs) (.fromDimension dimension))
      (axisWindow t (.fromDimension dimension)) (getKnob target (.fromDimension dimension)).toNat := by
  rw [axisStatus_fromDimension, searching.config, Sides, ← searching.aimed.centred]
  cases hstatus : config.band.status ((meter.measure t.knobs).utilizationBps config.limits dimension) with
  | inBand =>
    have hsome := inBandDimension_isSome hstatus
    rw [h] at hsome
    exact absurd hsome nofun
  | belowTarget => exact Or.inl ⟨rfl, knob_lt_of_below hits hstatus⟩
  | aboveTarget => exact Or.inr ⟨rfl, knob_lt_of_above hits hstatus⟩

def search (meter : Meter) (config : BudgetTargetConfig) (rngSeed : UInt64) (n : ℕ) : BudgetTargeter :=
  (measured meter)^[n] (.new config rngSeed)

def rangeSize (config : BudgetTargetConfig) (dimension : MeterDimension) : ℕ :=
  (knobBoundsPair config.bounds (.fromDimension dimension)).2.toNat + 1 -
    (knobBoundsPair config.bounds (.fromDimension dimension)).1.toNat

theorem recordBest_same (t : BudgetTargeter) (peak : UInt32) (axis : KnobAxis) :
    SameSearch t (t.recordBest peak) ∧ SameAxis axis t (t.recordBest peak) := by
  unfold recordBest
  split_ifs
  · exact ⟨⟨rfl, rfl, rfl, rfl⟩, ⟨rfl, rfl⟩⟩
  · exact ⟨.refl, .refl⟩

theorem Searching.of_same {axis : KnobAxis} {v : ℕ} {t' : BudgetTargeter} (searching : Searching config axis v t)
    (hsearch : t'.config = t.config) (hstalled : t'.stalled = t.stalled) (haxis : SameAxis axis t t') :
    Searching config axis v t' :=
  ⟨hsearch.trans searching.config, hstalled.trans searching.unstalled, searching.aimed.of_sameAxis haxis⟩

theorem axisStatus_congr {t t' : BudgetTargeter} (h : t'.config = t.config) (sample : ConsumptionSample) :
    t'.axisStatus sample = t.axisStatus sample := by
  funext axis
  cases axis <;> simp only [axisStatus, h]

theorem measured_cases (hits : HitsBand meter config dimension target)
    (searching : Searching config (.fromDimension dimension)
      (getKnob target (.fromDimension dimension)).toNat t) :
    ((measured meter t).isConverged = true ∧ (measured meter t).stalled = false) ∨
      Searching config (.fromDimension dimension) (getKnob target (.fromDimension dimension)).toNat
          (measured meter t) ∧
        (t.isCapped = false →
          (axisWindow (measured meter t) (.fromDimension dimension)).size ≤
              (axisWindow t (.fromDimension dimension)).size / 2 ∧
            (measured meter t).iterations = t.iterations + 1) := by
  by_cases hconverged : t.isConverged = true
  · left
    rw [measured, observe, if_pos hconverged]
    exact ⟨hconverged, searching.unstalled⟩
  rw [Bool.not_eq_true] at hconverged
  set sample := meter.measure t.knobs with hsample
  obtain ⟨hbest, hbestAxis⟩ := recordBest_same t (sample.peakUtilizationBps config.limits)
    (.fromDimension dimension)
  cases hband : sample.inBandDimension config.limits config.band with
  | some found =>
    left
    simp only [measured, observe, hconverged, ← hsample, searching.config, hband, Bool.false_eq_true, ↓reduceIte]
    refine ⟨rfl, ?_⟩
    split_ifs <;> exact hbest.stalled.trans searching.unstalled
  | none =>
    right
    have hsides := sides_of_not_inBand hits searching hband
    cases hcapped : t.isCapped with
    | true =>
      simp only [measured, observe, hconverged, ← hsample, searching.config, searching.unstalled, hband, hcapped,
        Bool.or_true, ↓reduceIte]
      refine ⟨searching.of_same hbest.config hbest.stalled ⟨hbestAxis.pair, hbestAxis.knob⟩, nofun⟩
    | false =>
      set counted : BudgetTargeter :=
        { t.recordBest (sample.peakUtilizationBps config.limits) with
          iterations := (t.recordBest (sample.peakUtilizationBps config.limits)).iterations + 1 } with hcounted
      have hcountedAxis : SameAxis (.fromDimension dimension) t counted := ⟨hbestAxis.pair, hbestAxis.knob⟩
      obtain ⟨hmoved, hsize, haimed⟩ := adjustAxes_halves sample
        (searching.aimed.of_sameAxis hcountedAxis) (by
          rw [axisStatus_congr (show counted.config = t.config from hbest.config), hcountedAxis.window]
          exact hsides)
      have hframe : SameSearch counted (counted.adjustAxes sample).1 :=
        foldl_turn_sameSearch knobAxes (counted, false)
      rw [hcountedAxis.window] at hsize
      simp only [measured, observe, hconverged, ← hsample, searching.config, searching.unstalled, hband, hcapped,
        Bool.or_false, Bool.false_eq_true, ↓reduceIte, ← hcounted, hmoved]
      refine ⟨⟨?_, ?_, ⟨haimed.has, haimed.centred⟩⟩, fun _ => ⟨hsize, ?_⟩⟩
      · exact (hframe.config.trans hbest.config).trans searching.config
      · exact (hframe.stalled.trans hbest.stalled).trans searching.unstalled
      · rw [hframe.iterations, hcounted]
        exact congrArg (· + 1) hbest.iterations

theorem measured_of_converged (h : t.isConverged = true) : measured meter t = t := by
  rw [measured, observe, if_pos h]

theorem new_getKnob {axis : KnobAxis}
    (h : (knobBoundsPair config.bounds axis).1.toNat ≤ (knobBoundsPair config.bounds axis).2.toNat)
    (rngSeed : UInt64) :
    getKnob (new config rngSeed).knobs axis = BudgetTargeting.midpoint (knobBoundsPair config.bounds axis) := by
  cases axis with
  | loopCount => rfl
  | vecLen | stringLen | nestedDepth => exact midpointU32_toUInt64 h

theorem new_searching {axis : KnobAxis} {v : ℕ} (rngSeed : UInt64)
    (hlo : (knobBoundsPair config.bounds axis).1.toNat ≤ v)
    (hhi : v ≤ (knobBoundsPair config.bounds axis).2.toNat) :
    Searching config axis v (new config rngSeed) := by
  refine ⟨rfl, rfl, ⟨hlo, hhi⟩, ?_⟩
  rw [new_getKnob (hlo.trans hhi)]
  exact midpoint_toNat (hlo.trans hhi)

def Affordable (config : BudgetTargetConfig) (axis : KnobAxis) (t : BudgetTargeter) : Prop :=
  Nat.log 2 (axisWindow t axis).size + 1 + t.iterations.toNat ≤ config.maxIterations.toNat

theorem Affordable.uncapped {axis : KnobAxis} (h : Affordable config axis t) (hconfig : t.config = config) :
    t.isCapped = false := by
  rw [isCapped, hconfig, decide_eq_false_iff_not, UInt32.le_iff_toNat_le]
  rw [Affordable] at h
  omega

theorem Affordable.halve {axis : KnobAxis} {t' : BudgetTargeter} (h : Affordable config axis t)
    (pos : 0 < (axisWindow t' axis).size) (hsize : (axisWindow t' axis).size ≤ (axisWindow t axis).size / 2)
    (hiterations : t'.iterations = t.iterations + 1) : Affordable config axis t' := by
  have hlog := Nat.log_mono_right (b := 2) hsize
  have hone : 0 < Nat.log 2 (axisWindow t axis).size := Nat.log_pos (by omega) (by omega)
  have hcap := config.maxIterations.toNat_lt
  rw [Nat.log_div_base] at hlog
  rw [Affordable] at h ⊢
  rw [hiterations, UInt32.toNat_add, UInt32.toNat_one, Nat.mod_eq_of_lt (by omega)]
  omega

structure OnCourse (config : BudgetTargetConfig) (axis : KnobAxis) (v : ℕ) (t : BudgetTargeter) : Prop where
  searching : Searching config axis v t
  affordable : Affordable config axis t

theorem measured_halves (hits : HitsBand meter config dimension target)
    (live : OnCourse config (.fromDimension dimension) (getKnob target (.fromDimension dimension)).toNat t) :
    (measured meter t).isConverged = true ∨
      OnCourse config (.fromDimension dimension) (getKnob target (.fromDimension dimension)).toNat
          (measured meter t) ∧
        (axisWindow (measured meter t) (.fromDimension dimension)).size ≤
          (axisWindow t (.fromDimension dimension)).size / 2 := by
  obtain ⟨hconverged, -⟩ | ⟨hsearching, hhalves⟩ := measured_cases hits live.searching
  · exact Or.inl hconverged
  · obtain ⟨hsize, hiterations⟩ := hhalves (live.affordable.uncapped live.searching.config)
    have hpos := Window.size_pos hsearching.aimed.has
    exact Or.inr ⟨⟨hsearching, live.affordable.halve hpos hsize hiterations⟩, hsize⟩

theorem search_unstalled (hits : HitsBand meter config dimension target) (n : ℕ)
    (searching : Searching config (.fromDimension dimension)
      (getKnob target (.fromDimension dimension)).toNat t) : ((measured meter)^[n] t).stalled = false := by
  induction n generalizing t with
  | zero => exact searching.unstalled
  | succ n ih =>
    rw [Function.iterate_succ_apply]
    obtain ⟨hconverged, hstalled⟩ | ⟨hsearching, -⟩ := measured_cases hits searching
    · rw [Function.iterate_fixed (measured_of_converged hconverged)]
      exact hstalled
    · exact ih hsearching

def OnEdge (meter : Meter) (config : BudgetTargetConfig) (knobs : BudgetKnobs) (edge : BudgetEdge) : Prop :=
  edge.utilizationBps = (meter.measure knobs).utilizationBps config.limits edge.dimension ∧
    config.band.status edge.utilizationBps = .inBand

theorem nudgeAlong_search (t : BudgetTargeter) (rng : Prng.SeededPrng) (turns : List (Bool × KnobAxis)) :
    (t.nudgeAlong rng turns).1.config = t.config ∧ (t.nudgeAlong rng turns).1.budgetEdge = t.budgetEdge := by
  unfold nudgeAlong
  split <;> exact ⟨rfl, rfl⟩

theorem stallOrNudge_search (t : BudgetTargeter) :
    t.stallOrNudge.config = t.config ∧ t.stallOrNudge.budgetEdge = t.budgetEdge := by
  have hnudge : t.nudgeWithinRanges.1.config = t.config ∧ t.nudgeWithinRanges.1.budgetEdge = t.budgetEdge :=
    nudgeAlong_search t _ _
  unfold stallOrNudge
  generalize t.nudgeWithinRanges = nudge at hnudge
  obtain ⟨next, moved⟩ := nudge
  dsimp only at hnudge ⊢
  split_ifs
  · exact ⟨rfl, rfl⟩
  · exact hnudge
  · exact hnudge

structure Sound (meter : Meter) (config : BudgetTargetConfig) (t : BudgetTargeter) : Prop where
  configured : t.config = config
  edge : ∀ edge, t.budgetEdge = some edge → OnEdge meter config t.knobs edge

theorem Sound.of_none (hconfig : t.config = config) (hedge : t.budgetEdge = none) : Sound meter config t where
  configured := hconfig
  edge edge h := by
    rw [hedge] at h
    cases h

theorem measured_sound (h : Sound meter config t) : Sound meter config (measured meter t) := by
  by_cases hconverged : t.isConverged = true
  · rwa [measured_of_converged hconverged]
  have hnone : t.budgetEdge = none := by simpa [isConverged] using hconverged
  rw [Bool.not_eq_true] at hconverged
  set sample := meter.measure t.knobs with hsample
  have hbest := (recordBest_same t (sample.peakUtilizationBps config.limits) .loopCount).1
  have hknobs : (t.recordBest (sample.peakUtilizationBps config.limits)).knobs = t.knobs := by
    unfold recordBest
    split_ifs <;> rfl
  have hbestConfig := hbest.config.trans h.configured
  have hbestEdge := hbest.budgetEdge.trans hnone
  cases hband : sample.inBandDimension config.limits config.band with
  | some found =>
    obtain ⟨hmeasured, hin⟩ := inBandDimension_some hband
    simp only [measured, observe, hconverged, ← hsample, h.configured, hband, Bool.false_eq_true, ↓reduceIte]
    constructor
    · dsimp only
      split_ifs <;> exact hbestConfig
    · intro edge hedge
      cases hedge
      dsimp only
      have hsame : ∀ p : Prop, [Decidable p] → (if p then t.recordBest (sample.peakUtilizationBps config.limits)
          else { t.recordBest (sample.peakUtilizationBps config.limits) with
            iterations := (t.recordBest (sample.peakUtilizationBps config.limits)).iterations + 1 }).knobs =
          t.knobs := by
        intro p _
        split_ifs <;> exact hknobs
      rw [hsame, OnEdge, ← hsample]
      exact ⟨hmeasured, hin⟩
  | none =>
    simp only [measured, observe, hconverged, ← hsample, h.configured, hband, Bool.false_or]
    set counted : BudgetTargeter :=
      { t.recordBest (sample.peakUtilizationBps config.limits) with
        iterations := (t.recordBest (sample.peakUtilizationBps config.limits)).iterations + 1 } with hcounted
    have hframe : SameSearch counted (counted.adjustAxes sample).1 := foldl_turn_sameSearch knobAxes (counted, false)
    have hadjustedConfig : (counted.adjustAxes sample).1.config = config := hframe.config.trans hbestConfig
    have hadjustedEdge : (counted.adjustAxes sample).1.budgetEdge = none := hframe.budgetEdge.trans hbestEdge
    obtain ⟨hnudgeConfig, hnudgeEdge⟩ := stallOrNudge_search (counted.adjustAxes sample).1
    cases hterminal : t.stalled || t.isCapped with
    | true =>
      simp only [Bool.false_eq_true, ↓reduceIte]
      exact .of_none hbestConfig hbestEdge
    | false =>
      simp only [Bool.false_eq_true, ↓reduceIte]
      cases hmoved : (counted.adjustAxes sample).2 with
      | true =>
        simp only [↓reduceIte]
        exact .of_none hadjustedConfig hadjustedEdge
      | false =>
        simp only [Bool.false_eq_true, ↓reduceIte]
        exact .of_none (hnudgeConfig.trans hadjustedConfig) (hnudgeEdge.trans hadjustedEdge)

theorem search_sound (meter : Meter) (config : BudgetTargetConfig) (rngSeed : UInt64) (n : ℕ) :
    Sound meter config (search meter config rngSeed n) := by
  induction n with
  | zero => exact .of_none rfl rfl
  | succ n ih =>
    rw [search, Function.iterate_succ_apply']
    exact measured_sound ih

theorem search_finds_edge (config : BudgetTargetConfig) (rngSeed : UInt64) (meter : Meter)
    (dimension : MeterDimension) (target : BudgetKnobs)
    (hlo : (knobBoundsPair config.bounds (.fromDimension dimension)).1 ≤
      getKnob target (.fromDimension dimension))
    (hhi : getKnob target (.fromDimension dimension) ≤
      (knobBoundsPair config.bounds (.fromDimension dimension)).2)
    (hits : HitsBand meter config dimension target) :
    (∀ n, (search meter config rngSeed n).isStalled = false) ∧
      (∀ n edge, (search meter config rngSeed n).budgetEdge = some edge →
        OnEdge meter config (search meter config rngSeed n).knobs edge) ∧
      (Nat.log 2 (rangeSize config dimension) + 1 ≤ config.maxIterations.toNat →
        ∃ n ≤ Nat.log 2 (rangeSize config dimension) + 1,
          (search meter config rngSeed n).isConverged = true) := by
  have hstart := new_searching rngSeed hlo hhi
  refine ⟨fun n => search_unstalled hits n hstart, fun n => (search_sound meter config rngSeed n).edge, fun hcap => ?_⟩
  have hsize : rangeSize config dimension =
      (axisWindow (new config rngSeed) (.fromDimension dimension)).size := rfl
  rw [hsize] at hcap ⊢
  apply found_within (measured meter) (fun t => t.isConverged = true)
    (OnCourse config (.fromDimension dimension) (getKnob target (.fromDimension dimension)).toNat)
    (fun t => (axisWindow t (.fromDimension dimension)).size)
  · intro t live
    exact Window.size_pos live.searching.aimed.has
  · intro t live
    exact measured_halves hits live
  · exact ⟨hstart, hcap⟩

end Search

section Linear

def saturatingMul (a b : UInt64) : UInt64 := UInt64.ofNat (min (a.toNat * b.toNat) (2 ^ 64 - 1))

theorem saturatingMul_mono {a a' : UInt64} (h : a ≤ a') (b : UInt64) :
    saturatingMul a b ≤ saturatingMul a' b := by
  have hmul : a.toNat * b.toNat ≤ a'.toNat * b.toNat := Nat.mul_le_mul_right _ h
  rw [UInt64.le_iff_toNat_le, saturatingMul, saturatingMul, UInt64.toNat_ofNat', UInt64.toNat_ofNat',
    Nat.mod_eq_of_lt (Nat.lt_of_le_of_lt (Nat.min_le_right ..) (by decide)),
    Nat.mod_eq_of_lt (Nat.lt_of_le_of_lt (Nat.min_le_right ..) (by decide))]
  omega

def linear : Meter where
  measure knobs :=
    { cpuInsns := saturatingMul knobs.loopCount 100
      memBytes := saturatingMul knobs.vecLen.toUInt64 4194
      minBuiltin := saturatingMul knobs.stringLen.toUInt64 61 }
  mono := by
    intro dimension knobs knobs' h
    cases dimension with
    | cpu | mem | minBuiltin => exact saturatingMul_mono h _

theorem search_linear_finds_edge :
    (∀ n, (search linear .default 7 n).isStalled = false) ∧
      ∃ n ≤ 20, ∃ edge, (search linear .default 7 n).budgetEdge = some edge ∧
        OnEdge linear .default (search linear .default 7 n).knobs edge := by
  have hlog : Nat.log 2 (rangeSize .default .cpu) + 1 = 20 := by decide
  have h := search_finds_edge .default 7 linear .cpu ⟨1000000, 1, 1, 1⟩ (by decide) (by decide)
    (by unfold HitsBand; decide)
  rw [hlog] at h
  obtain ⟨n, hn, hconverged⟩ := h.2.2 (by decide)
  obtain ⟨edge, hedge⟩ := Option.isSome_iff_exists.mp hconverged
  exact ⟨h.1, n, hn, edge, hedge, h.2.1 n edge hedge⟩

end Linear

end CrashLab.BudgetSearch
