import CrashLab.Histories
import CrashLab.Scheduler

namespace CrashLab.Scheduler

open Histories PrefixSums

inductive SchedulerOp where
  | select (rngState : ℕ)
  | recordNovelty (index : ℕ)
  | updateWeight (index : ℕ) (newWeight : F64)
  | diversify
  | resetWeights
deriving DecidableEq

namespace WeightedScheduler

variable {Mutator : Type}

def apply (s : WeightedScheduler Mutator) :
    SchedulerOp → Except SchedulerError Unit × WeightedScheduler Mutator
  | .select rngState => (.ok (), (s.selectMutator rngState).2.2)
  | .recordNovelty index => (.ok (), s.recordNovelty index)
  | .updateWeight index newWeight => s.updateWeight index newWeight
  | .diversify => (.ok (), s.diversify.2)
  | .resetWeights => (.ok (), s.resetWeights)

def next (s : WeightedScheduler Mutator) (op : SchedulerOp) : WeightedScheduler Mutator :=
  (s.apply op).2

structure Consistent (s : WeightedScheduler Mutator) : Prop where
  cumulative : s.cumulativeWeights =
    (List.range s.weights.length).map fun k => (s.weights.take (k + 1)).sum
  total : s.totalWeight = s.weights.sum
  positive : 0 < s.totalWeight

def ErrKeeps (s : WeightedScheduler Mutator) (op : SchedulerOp) : Prop :=
  ∀ e, (s.apply op).1 = .error e → s.next op = s

def LeavesMass (s : WeightedScheduler Mutator) : SchedulerOp → Prop
  | .updateWeight index (.finite weight) => index < s.weights.length →
      0 < weight ∨ ∃ j w, s.weights[j]? = some w ∧ j ≠ index ∧ w ≠ 0
  | _ => True

structure Regular (s : WeightedScheduler Mutator) : Prop where
  consistent : s.Consistent
  length : s.weights.length = s.mutators.length
  baselineLength : s.baselineWeights.length = s.mutators.length
  nonneg : ∀ w ∈ s.weights, 0 ≤ w
  baseline : ∀ w ∈ s.baselineWeights, 0 ≤ w
  baselineSum : 0 < s.baselineWeights.sum
  threshold : s.deadMutatorThreshold = none
  demoted : ∀ d ∈ s.demoted, d = false

theorem clampWeight_nonneg (weight : ℚ) : 0 ≤ clampWeight weight := by
  unfold clampWeight
  split_ifs with h
  · exact le_refl 0
  · exact not_lt.mp h

theorem clampWeight_eq_zero {weight : ℚ} (h : ¬ 0 < weight) : clampWeight weight = 0 := by
  unfold clampWeight
  split_ifs with hneg
  · rfl
  · exact le_antisymm (not_lt.mp h) (not_lt.mp hneg)

theorem clampWeight_of_pos {weight : ℚ} (h : 0 < weight) : clampWeight weight = weight := by
  rw [clampWeight, if_neg (not_lt.mpr h.le)]

theorem configWeights_spec {configs : List (Mutator × F64)} {weights : List ℚ}
    (h : configWeights configs = some weights) :
    weights.length = configs.length ∧ ∀ w ∈ weights, 0 ≤ w := by
  fun_induction configWeights configs generalizing weights with
  | case1 =>
    obtain rfl := Option.some_inj.mp h
    simp
  | case2 m weight configs ih =>
    obtain ⟨rest, hrest, rfl⟩ := Option.map_eq_some_iff.mp h
    obtain ⟨hlen, hnonneg⟩ := ih hrest
    exact ⟨by rw [List.length_cons, List.length_cons, hlen],
      List.forall_mem_cons.mpr ⟨clampWeight_nonneg weight, hnonneg⟩⟩
  | case3 => cases h

theorem consistent_recompute {s : WeightedScheduler Mutator} (h : 0 < s.weights.sum) :
    s.recomputeCumulative.Consistent := ⟨cumulate_zero s.weights, rfl, h⟩

theorem regular_new {configs : List (Mutator × F64)} {s : WeightedScheduler Mutator}
    (h : new configs = .ok s) : s.Regular := by
  unfold new at h
  split_ifs at h
  split at h
  · cases h
  · rename_i weights hweights
    split_ifs at h with hsum
    obtain rfl := Except.ok.inj h
    obtain ⟨hlen, hnonneg⟩ := configWeights_spec hweights
    rw [not_le] at hsum
    constructor
    case consistent => exact ⟨cumulate_zero weights, rfl, hsum⟩
    case length => simpa using hlen
    case baselineLength => simpa using hlen
    case nonneg => exact hnonneg
    case baseline => exact hnonneg
    case baselineSum => exact hsum
    case threshold => rfl
    case demoted => exact fun d hd => List.eq_of_mem_replicate hd

theorem rankedWeights_spec {n rank : ℕ} {order : List ℕ} {weights : List ℚ}
    (hrank : rank + order.length = n) (horder : ∀ i ∈ order, i < weights.length)
    (hnonneg : ∀ w ∈ weights, 0 ≤ w) :
    (rankedWeights n rank order weights).length = weights.length ∧
      (∀ w ∈ rankedWeights n rank order weights, 0 ≤ w) ∧
      ((∃ w ∈ weights, 0 < w) ∨ order ≠ [] → ∃ w ∈ rankedWeights n rank order weights, 0 < w) := by
  induction order generalizing rank weights with
  | nil => exact ⟨rfl, hnonneg, fun h => h.resolve_right fun hne => hne rfl⟩
  | cons idx order ih =>
    obtain ⟨hidx, hrest⟩ := List.forall_mem_cons.mp horder
    rw [List.length_cons] at hrank
    have hpos : (0 : ℚ) < ((n - rank : ℕ) : ℚ) := by
      have : 0 < n - rank := by omega
      exact_mod_cast this
    have hset : ∀ w ∈ weights.set idx ((n - rank : ℕ) : ℚ), 0 ≤ w := by
      intro w hw
      rcases List.mem_or_eq_of_mem_set hw with hw | rfl
      · exact hnonneg w hw
      · exact hpos.le
    obtain ⟨hlen, hall, hex⟩ := @ih (rank + 1) (weights.set idx ((n - rank : ℕ) : ℚ)) (by omega)
      (by simpa using hrest) hset
    rw [rankedWeights]
    exact ⟨by rw [hlen, List.length_set], hall,
      fun _ => hex (Or.inl ⟨_, List.mem_set hidx _, hpos⟩)⟩

theorem yieldOrder_perm (stats : List MutatorStats) (n : ℕ) :
    (yieldOrder stats n).Perm (List.range n) := List.perm_insertionSort _ _

theorem Regular.withWeights {s : WeightedScheduler Mutator} (h : s.Regular) {weights : List ℚ}
    {demoted : List Bool} (hlen : weights.length = s.mutators.length) (hnonneg : ∀ w ∈ weights, 0 ≤ w)
    (hsum : 0 < weights.sum) (hdemoted : ∀ d ∈ demoted, d = false) :
    (recomputeCumulative { s with weights := weights, demoted := demoted }).Regular where
  consistent := consistent_recompute hsum
  length := hlen
  baselineLength := h.baselineLength
  nonneg := hnonneg
  baseline := h.baseline
  baselineSum := h.baselineSum
  threshold := h.threshold
  demoted := hdemoted

theorem Regular.withStats {s : WeightedScheduler Mutator} (h : s.Regular) (stats : List MutatorStats)
    (totalSelections : ℕ) :
    ({ s with stats := stats, totalSelections := totalSelections } : WeightedScheduler Mutator).Regular where
  consistent := ⟨h.consistent.cumulative, h.consistent.total, h.consistent.positive⟩
  length := h.length
  baselineLength := h.baselineLength
  nonneg := h.nonneg
  baseline := h.baseline
  baselineSum := h.baselineSum
  threshold := h.threshold
  demoted := h.demoted

theorem Regular.isDead {s : WeightedScheduler Mutator} (h : s.Regular) (index : ℕ) :
    s.isDead index = false := by
  rw [WeightedScheduler.isDead, h.threshold]

theorem Regular.selectMutator {s : WeightedScheduler Mutator} (h : s.Regular) (rngState : ℕ) :
    (s.selectMutator rngState).2.2.Regular := by
  have hcount : ∀ index, (s.countSelection index).Regular := fun index => h.withStats _ _
  simp only [WeightedScheduler.selectMutator, demoteIfDead, (hcount _).isDead, Bool.false_eq_true,
    if_false]
  exact hcount _

theorem Regular.recordNovelty {s : WeightedScheduler Mutator} (h : s.Regular) (index : ℕ) :
    (s.recordNovelty index).Regular := by
  have hnot : (s.demoted[index]?).getD false = false := by
    cases hd : s.demoted[index]? with
    | none => rfl
    | some d => exact h.demoted d (List.mem_of_getElem? hd)
  unfold WeightedScheduler.recordNovelty
  rw [if_neg (by rw [hnot]; exact Bool.false_ne_true)]
  exact h.withStats _ s.totalSelections

theorem Regular.diversify {s : WeightedScheduler Mutator} (h : s.Regular) :
    s.diversify.2.Regular := by
  simp only [WeightedScheduler.diversify]
  split_ifs with hfew
  · exact h
  · exact h
  · have hperm := yieldOrder_perm s.stats s.mutators.length
    have hlength : (yieldOrder s.stats s.mutators.length).length = s.mutators.length := by
      rw [hperm.length_eq, List.length_range]
    have hne : yieldOrder s.stats s.mutators.length ≠ [] := by
      intro hnil
      rw [hnil, List.length_nil] at hlength
      omega
    obtain ⟨hlen, hnonneg, hpos⟩ := @rankedWeights_spec s.mutators.length 0
      (yieldOrder s.stats s.mutators.length) (List.replicate s.mutators.length 0) (by omega)
      (fun i hi => by simpa using List.mem_range.mp (hperm.mem_iff.mp hi))
      (fun w hw => (List.eq_of_mem_replicate hw).ge)
    obtain ⟨w, hw, hwpos⟩ := hpos (Or.inr hne)
    exact h.withWeights (by simpa using hlen) hnonneg (sum_pos_of_mem hnonneg hw hwpos) h.demoted

theorem Regular.resetWeights {s : WeightedScheduler Mutator} (h : s.Regular) :
    s.resetWeights.Regular :=
  h.withWeights h.baselineLength h.baseline h.baselineSum
    (fun d hd => by obtain ⟨_, _, rfl⟩ := List.mem_map.mp hd; rfl)

theorem updateWeight_cases (s : WeightedScheduler Mutator) (index : ℕ) (newWeight : F64) :
    (s.LeavesMass (.updateWeight index newWeight) ∧
      ∃ e, s.updateWeight index newWeight = (.error e, s)) ∨
    ∃ weight, newWeight = .finite weight ∧ index < s.weights.length ∧
      s.updateWeight index newWeight =
        if (s.weights.set index (clampWeight weight)).sum ≤ 0 then
          (.error .invalidWeightConfiguration,
            { s with weights := s.weights.set index (clampWeight weight) })
        else (.ok (), recomputeCumulative { s with weights := s.weights.set index (clampWeight weight) }) := by
  unfold updateWeight
  split_ifs with hindex
  · refine Or.inl ⟨?_, _, rfl⟩
    cases newWeight with
    | finite weight => exact fun hlt => absurd hlt (not_lt.mpr hindex)
    | nan => trivial
    | infinite negative => trivial
  · cases newWeight with
    | finite weight => exact Or.inr ⟨weight, rfl, not_le.mp hindex, rfl⟩
    | nan => exact Or.inl ⟨trivial, _, rfl⟩
    | infinite negative => exact Or.inl ⟨trivial, _, rfl⟩

theorem Regular.set_sum_pos_iff {s : WeightedScheduler Mutator} (h : s.Regular) {index : ℕ}
    (hindex : index < s.weights.length) (weight : ℚ) :
    0 < (s.weights.set index (clampWeight weight)).sum ↔
      0 < weight ∨ ∃ j w, s.weights[j]? = some w ∧ j ≠ index ∧ w ≠ 0 := by
  by_cases hpos : 0 < weight
  · rw [clampWeight_of_pos hpos]
    exact iff_of_true (sum_set_pos h.nonneg hindex hpos) (Or.inl hpos)
  · rw [clampWeight_eq_zero hpos, sum_set_zero_pos_iff h.nonneg, or_iff_right hpos]

theorem Regular.step_iff {s : WeightedScheduler Mutator} (h : s.Regular) (op : SchedulerOp) :
    ((s.next op).Consistent ∧ s.ErrKeeps op ↔ s.LeavesMass op) ∧
      (s.LeavesMass op → (s.next op).Regular) := by
  have hgood : ∀ op', (s.next op').Regular → (∀ e, (s.apply op').1 ≠ .error e) → s.LeavesMass op' →
      ((s.next op').Consistent ∧ s.ErrKeeps op' ↔ s.LeavesMass op') ∧
        (s.LeavesMass op' → (s.next op').Regular) := by
    intro op' hreg hok hmass
    exact ⟨iff_of_true ⟨hreg.consistent, fun e he => absurd he (hok e)⟩ hmass, fun _ => hreg⟩
  have hnever : ∀ e : SchedulerError, (.ok () : Except SchedulerError Unit) ≠ .error e := by
    intro e he
    cases he
  cases op with
  | select rngState => exact hgood _ (h.selectMutator rngState) hnever trivial
  | recordNovelty index => exact hgood _ (h.recordNovelty index) hnever trivial
  | diversify => exact hgood _ h.diversify hnever trivial
  | resetWeights => exact hgood _ h.resetWeights hnever trivial
  | updateWeight index newWeight =>
    simp only [next, ErrKeeps, apply]
    rcases updateWeight_cases s index newWeight with ⟨hmass, e, heq⟩ | ⟨weight, rfl, hindex, heq⟩
    · rw [heq]
      exact ⟨iff_of_true ⟨h.consistent, fun _ _ => rfl⟩ hmass, fun _ => h⟩
    have hmass : s.LeavesMass (.updateWeight index (.finite weight)) ↔
        0 < (s.weights.set index (clampWeight weight)).sum := by
      rw [h.set_sum_pos_iff hindex]
      exact ⟨fun hl => hl hindex, fun hw _ => hw⟩
    rw [hmass, heq]
    by_cases hsum : (s.weights.set index (clampWeight weight)).sum ≤ 0
    · -- the total check fails after the weight was stored
      rw [if_pos hsum]
      refine ⟨iff_of_false (fun hcons => ?_) (not_lt.mpr hsum), fun hpos => absurd hpos (not_lt.mpr hsum)⟩
      have htotal := hcons.1.total
      have hpositive := hcons.1.positive
      rw [htotal] at hpositive
      exact absurd hpositive (not_lt.mpr hsum)
    · rw [if_neg hsum]
      rw [not_le] at hsum
      have hlen : (s.weights.set index (clampWeight weight)).length = s.mutators.length := by
        rw [List.length_set, h.length]
      have hnonneg : ∀ w ∈ s.weights.set index (clampWeight weight), 0 ≤ w := by
        intro w hw
        rcases List.mem_or_eq_of_mem_set hw with hw | rfl
        · exact h.nonneg w hw
        · exact clampWeight_nonneg weight
      have hreg := h.withWeights hlen hnonneg hsum h.demoted
      exact ⟨iff_of_true ⟨hreg.consistent, fun e he => absurd he (hnever e)⟩ hsum, fun _ => hreg⟩

theorem consistent_iff_mass_left {configs : List (Mutator × F64)} {s : WeightedScheduler Mutator}
    (h : new configs = .ok s) (ops : List SchedulerOp) :
    (Always next Consistent s ops ∧ EachStep next ErrKeeps s ops) ↔ EachStep next LeavesMass s ops := by
  have hreg := regular_new h
  rw [always_iff_eachStep hreg.consistent, ← eachStep_and]
  exact eachStep_iff (I := Regular)
    (fun t op ht hstep => (ht.step_iff op).2 ((ht.step_iff op).1.mp hstep))
    (fun t op ht => (ht.step_iff op).1) hreg ops

theorem consistent_while_mass_left :
    let s : WeightedScheduler String :=
      ⟨["a", "b"], [1, 1], [1, 2], 2, [.default, .default], 0, [1, 1], none, 1 / 20, [false, false]⟩
    let ops : List SchedulerOp := [.updateWeight 0 (.finite 0), .select 42, .updateWeight 1 (.finite 5)]
    new [("a", .finite 1), ("b", .finite 1)] = .ok s ∧
      Always next Consistent s ops ∧ EachStep next ErrKeeps s ops := by
  intro s ops
  have hnew : new [("a", .finite 1), ("b", .finite 1)] = .ok s := by decide +kernel
  refine ⟨hnew, (consistent_iff_mass_left hnew ops).mpr ?_⟩
  exact ⟨fun _ => Or.inr ⟨1, 1, rfl, by decide +kernel, by decide⟩, trivial,
    fun _ => Or.inl (by decide +kernel), trivial⟩

theorem failed_update_is_half_applied :
    let s : WeightedScheduler String := ⟨["only"], [1], [1], 1, [.default], 0, [1], none, 1 / 20, [false]⟩
    let ops : List SchedulerOp := [.updateWeight 0 (.finite 0)]
    new [("only", .finite 1)] = .ok s ∧
      ¬ (Always next Consistent s ops ∧ EachStep next ErrKeeps s ops) := by
  -- updating the only weight to zero returns `Err` but has stored the zero
  intro s ops
  refine ⟨by decide +kernel, fun h => ?_⟩
  have hkeeps := h.2.1 .invalidWeightConfiguration (by decide +kernel)
  exact absurd hkeeps (by decide +kernel)

end WeightedScheduler

end CrashLab.Scheduler

namespace CrashLab.Scheduler

open Histories PrefixSums

inductive SchedulerCall where
  | op (op : SchedulerOp)
  | recordDecodeSuccess (index : ℕ)
  | recordContractReached (index : ℕ)
  | setDeadMutatorPolicy (threshold : ℕ) (demotionFactor : F64)
deriving DecidableEq

namespace WeightedScheduler

variable {Mutator : Type}

def call (s : WeightedScheduler Mutator) : SchedulerCall → WeightedScheduler Mutator
  | .op op => s.next op
  | .recordDecodeSuccess index => s.recordDecodeSuccess index
  | .recordContractReached index => s.recordContractReached index
  | .setDeadMutatorPolicy threshold demotionFactor => s.setDeadMutatorPolicy threshold demotionFactor

def acceptedUpdate (s : WeightedScheduler Mutator) (index : ℕ) : SchedulerCall → Option ℚ
  | .op (.updateWeight i (.finite weight)) =>
    if i = index ∧ (s.updateWeight i (.finite weight)).1.isOk then some (clampWeight weight) else none
  | _ => none

def lastUpdate (index : ℕ) : WeightedScheduler Mutator → List SchedulerCall → Option ℚ
  | _, [] => none
  | s, c :: calls => (lastUpdate index (s.call c) calls).or (s.acceptedUpdate index c)

structure BuiltFrom (s₀ s : WeightedScheduler Mutator) : Prop where
  baseline : s.baselineWeights = s₀.weights
  weights : s.weights.length = s₀.weights.length
  demoted : s.demoted.length = s₀.weights.length
  mutators : s.mutators.length = s₀.weights.length

section Calls

variable {s₀ s : WeightedScheduler Mutator}

theorem builtFrom_new {configs : List (Mutator × F64)} (h : new configs = .ok s) : s.BuiltFrom s := by
  have hreg := regular_new h
  unfold new at h
  split_ifs at h
  split at h
  · cases h
  · rename_i weights hweights
    split_ifs at h
    obtain rfl := Except.ok.inj h
    have hlen := hreg.length
    exact ⟨rfl, rfl, by simpa using hlen.symm, hlen.symm⟩

theorem BuiltFrom.reweighted (h : s₀.BuiltFrom s) {weights cumulativeWeights : List ℚ} {totalWeight : ℚ}
    {demoted : List Bool} (hweights : weights.length = s₀.weights.length)
    (hdemoted : demoted.length = s₀.weights.length) :
    s₀.BuiltFrom { s with
      weights := weights, cumulativeWeights := cumulativeWeights, totalWeight := totalWeight, demoted := demoted } :=
  ⟨h.baseline, hweights, hdemoted, h.mutators⟩

theorem BuiltFrom.select (h : s₀.BuiltFrom s) (rngState : ℕ) : s₀.BuiltFrom (s.selectMutator rngState).2.2 := by
  have hcount : ∀ index, s₀.BuiltFrom (s.countSelection index) := fun _ =>
    ⟨h.baseline, h.weights, h.demoted, h.mutators⟩
  simp only [selectMutator, demoteIfDead]
  split_ifs
  · apply (hcount _).reweighted
    · rw [List.length_set, (hcount _).weights]
    · rw [List.length_set, (hcount _).demoted]
  · exact hcount _

theorem BuiltFrom.recordNovelty (h : s₀.BuiltFrom s) (index : ℕ) : s₀.BuiltFrom (s.recordNovelty index) := by
  simp only [WeightedScheduler.recordNovelty]
  split_ifs
  · refine ⟨h.baseline, ?_, ?_, h.mutators⟩
    · exact List.length_set.trans h.weights
    · exact List.length_set.trans h.demoted
  · exact ⟨h.baseline, h.weights, h.demoted, h.mutators⟩

theorem BuiltFrom.updateWeight (h : s₀.BuiltFrom s) (index : ℕ) (newWeight : F64) :
    s₀.BuiltFrom (s.updateWeight index newWeight).2 := by
  rcases updateWeight_cases s index newWeight with ⟨-, e, heq⟩ | ⟨weight, -, -, heq⟩
  · rw [heq]
    exact h
  · have hlen : (s.weights.set index (clampWeight weight)).length = s₀.weights.length := by
      rw [List.length_set, h.weights]
    rw [heq]
    split_ifs
    · exact h.reweighted hlen h.demoted
    · exact h.reweighted hlen h.demoted

theorem BuiltFrom.diversify (h : s₀.BuiltFrom s) : s₀.BuiltFrom s.diversify.2 := by
  simp only [WeightedScheduler.diversify]
  split_ifs
  · exact h
  · exact h
  · apply h.reweighted _ h.demoted
    have hperm := yieldOrder_perm s.stats s.mutators.length
    have hlen := (@rankedWeights_spec s.mutators.length 0 (yieldOrder s.stats s.mutators.length)
      (List.replicate s.mutators.length 0) (by simp [hperm.length_eq])
      (fun i hi => by simpa using List.mem_range.mp (hperm.mem_iff.mp hi))
      (fun w hw => (List.eq_of_mem_replicate hw).ge)).1
    rw [hlen, List.length_replicate, h.mutators]

theorem BuiltFrom.call (h : s₀.BuiltFrom s) (c : SchedulerCall) : s₀.BuiltFrom (s.call c) := by
  cases c with
  | op op =>
    cases op with
    | select rngState => exact h.select rngState
    | recordNovelty index => exact h.recordNovelty index
    | updateWeight index newWeight => exact h.updateWeight index newWeight
    | diversify => exact h.diversify
    | resetWeights =>
      apply h.reweighted
      · rw [h.baseline]
      · rw [List.length_map, h.demoted]
  | recordDecodeSuccess index => exact ⟨h.baseline, h.weights, h.demoted, h.mutators⟩
  | recordContractReached index => exact ⟨h.baseline, h.weights, h.demoted, h.mutators⟩
  | setDeadMutatorPolicy threshold demotionFactor => exact ⟨h.baseline, h.weights, h.demoted, h.mutators⟩

theorem BuiltFrom.recordNovelty_weight (h : s₀.BuiltFrom s) {index : ℕ} (hdemoted : s.demoted[index]? = some true) :
    (s.recordNovelty index).weights[index]? = s₀.weights[index]? := by
  have hindex : index < s.weights.length := by
    obtain ⟨hlt, -⟩ := List.getElem?_eq_some_iff.mp hdemoted
    rw [h.weights, ← h.demoted]
    exact hlt
  have hbaseline : index < s.baselineWeights.length := by
    rw [h.baseline, ← h.weights]
    exact hindex
  simp only [WeightedScheduler.recordNovelty, hdemoted, Option.getD_some, if_true, recomputeCumulative]
  rw [List.getElem?_set_self hindex, ← h.baseline, List.getElem?_eq_getElem hbaseline, Option.getD_some]

end Calls

theorem builtFrom_run {configs : List (Mutator × F64)} {s : WeightedScheduler Mutator} (h : new configs = .ok s)
    (calls : List SchedulerCall) : s.BuiltFrom (run call s calls) :=
  run_invariant (fun _ c ht => ht.call c) (builtFrom_new h) calls

theorem recovery_restores_iff {configs : List (Mutator × F64)} {s : WeightedScheduler Mutator}
    (h : new configs = .ok s) (calls : List SchedulerCall) {index : ℕ}
    (hdemoted : (run call s calls).demoted[index]? = some true) :
    ((run call s calls).recordNovelty index).weights[index]? = (lastUpdate index s calls).or s.weights[index]? ↔
      ∀ weight, lastUpdate index s calls = some weight → s.weights[index]? = some weight := by
  rw [(builtFrom_run h calls).recordNovelty_weight hdemoted]
  cases lastUpdate index s calls with
  | none => simp
  | some weight => simp

theorem recovery_without_updates :
    let s : WeightedScheduler String := ⟨["only"], [2], [2], 2, [.default], 0, [2], none, 1 / 20, [false]⟩
    let calls : List SchedulerCall := [.setDeadMutatorPolicy 1 (.finite (1 / 20)), .op (.select 42)]
    ((run call s calls).recordNovelty 0).weights[0]? = (lastUpdate 0 s calls).or s.weights[0]? := by
  intro s calls
  have hnew : new [("only", .finite 2)] = .ok s := by decide +kernel
  apply (recovery_restores_iff hnew calls (by decide +kernel)).mpr
  intro weight hnone
  cases hnone

theorem update_lost_by_recovery :
    let s : WeightedScheduler String := ⟨["only"], [1], [1], 1, [.default], 0, [1], none, 1 / 20, [false]⟩
    let calls : List SchedulerCall :=
      [.setDeadMutatorPolicy 1 (.finite (1 / 20)), .op (.select 42), .op (.updateWeight 0 (.finite 9))]
    new [("only", .finite 1)] = .ok s ∧ (run call s calls).demoted[0]? = some true ∧
      ¬ ((run call s calls).recordNovelty 0).weights[0]? = (lastUpdate 0 s calls).or s.weights[0]? := by
  -- the weight set during the demotion is lost when the mutator recovers
  decide +kernel

end WeightedScheduler

end CrashLab.Scheduler
