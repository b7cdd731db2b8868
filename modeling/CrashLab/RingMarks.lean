import CrashLab.Histories
import CrashLab.MachineInts
import CrashLab.RingCoverage

namespace CrashLab.WorkerRing.RingCoverage

open MachineInts Sorting

/-! `slot + 1` of a `u64` is checked: every build profile of the workspace keeps the overflow checks on,
so marking the last `u64` aborts. The ranges `[start, end)` have no name for that slot either. -/

def markSlot? (coverage : RingCoverage) (slot : ℕ) : Option RingCoverage := do
  let next ← checkedAdd slot 1
  return coverage.markRange ⟨slot, next⟩

def markRuns? (coverage : RingCoverage) (runStart runEnd : ℕ) : List ℕ → Option RingCoverage
  | [] => some (coverage.markRange ⟨runStart, runEnd⟩)
  | slot :: slots => do
    let next ← checkedAdd slot 1
    if slot = runEnd then markRuns? coverage runStart next slots
    else markRuns? (coverage.markRange ⟨runStart, runEnd⟩) slot next slots

def markSlots? (coverage : RingCoverage) (slots : List ℕ) : Option RingCoverage :=
  match dedupAdjacent (sortByKey id slots) with
  | [] => some coverage
  | first :: rest => do
    let next ← checkedAdd first 1
    coverage.markRuns? first next rest

theorem checkedAdd_one (slot : ℕ) :
    checkedAdd slot 1 = if slot < u64Max then some (slot + 1) else none := rfl

theorem markSlot?_eq (coverage : RingCoverage) (slot : ℕ) :
    coverage.markSlot? slot = if slot < u64Max then some (coverage.markSlot slot) else none := by
  rw [markSlot?, checkedAdd_one]
  split_ifs <;> rfl

theorem markRuns?_eq (coverage : RingCoverage) (runStart runEnd : ℕ) (slots : List ℕ) :
    coverage.markRuns? runStart runEnd slots =
      if ∀ slot ∈ slots, slot < u64Max then some (coverage.markRuns runStart runEnd slots)
      else none := by
  induction slots generalizing coverage runStart runEnd with
  | nil => simp [markRuns?, markRuns]
  | cons slot slots ih =>
    rw [markRuns?, checkedAdd_one]
    simp only [List.forall_mem_cons]
    by_cases hslot : slot < u64Max
    · simp only [hslot, if_true, true_and, Option.bind_eq_bind, Option.bind_some, markRuns]
      split_ifs <;> simp_all
    · simp [hslot]

theorem markSlots?_eq (coverage : RingCoverage) (slots : List ℕ) :
    coverage.markSlots? slots =
      if ∀ slot ∈ slots, slot < u64Max then some (coverage.markSlots slots) else none := by
  have hmem : (∀ slot ∈ slots, slot < u64Max) ↔
      ∀ slot ∈ dedupAdjacent (sortByKey id slots), slot < u64Max := by
    simp only [mem_dedupAdjacent, mem_sortByKey]
  rw [markSlots?, markSlots]
  simp only [hmem]
  cases dedupAdjacent (sortByKey id slots) with
  | nil => simp
  | cons first rest =>
    simp only [List.forall_mem_cons, checkedAdd_one]
    by_cases hfirst : first < u64Max
    · simp [hfirst, markRuns?_eq]
    · simp [hfirst]

/-! What can be done to a coverage, and the slots each of it marks. -/

inductive Marking where
  | range (range : RingRange)
  | slot (slot : ℕ)
  | slots (slots : List ℕ)
  | union (other : RingCoverage)

namespace Marking

def marked : Marking → Set ℕ
  | range r => {slot | r.contains slot = true}
  | slot n => {n}
  | slots l => {slot | slot ∈ l}
  | union other => other.slots

def Representable : Marking → Prop
  | slot n => n < u64Max
  | slots l => ∀ n ∈ l, n < u64Max
  | range _ | union _ => True

instance : DecidablePred Representable
  | slot n => inferInstanceAs (Decidable (n < u64Max))
  | slots l => inferInstanceAs (Decidable (∀ n ∈ l, n < u64Max))
  | range _ | union _ => isTrue trivial

end Marking

def mark? (coverage : RingCoverage) : Marking → Option RingCoverage
  | .range r => some (coverage.markRange r)
  | .slot n => coverage.markSlot? n
  | .slots l => coverage.markSlots? l
  | .union other => some (coverage.union other)

def markAll? (coverage : RingCoverage) (marks : List Marking) : Option RingCoverage :=
  marks.foldlM mark? coverage

def mark (coverage : RingCoverage) : Marking → RingCoverage
  | .range r => coverage.markRange r
  | .slot n => coverage.markSlot n
  | .slots l => coverage.markSlots l
  | .union other => coverage.union other

theorem mark?_eq (coverage : RingCoverage) (m : Marking) :
    coverage.mark? m = if m.Representable then some (coverage.mark m) else none := by
  cases m with
  | range r => exact (if_pos trivial).symm
  | slot n => exact markSlot?_eq coverage n
  | slots l => exact markSlots?_eq coverage l
  | union other => exact (if_pos trivial).symm

theorem markAll?_eq (coverage : RingCoverage) (marks : List Marking) :
    coverage.markAll? marks =
      if ∀ m ∈ marks, m.Representable then some (Histories.run mark coverage marks) else none :=
  Histories.foldlM_eq_run mark?_eq coverage marks

theorem foldl_markRange_spec {coverage : RingCoverage} (h : Normalized coverage.ranges)
    (ranges : List RingRange) :
    Normalized (ranges.foldl markRange coverage).ranges ∧
      ∀ slot, slot ∈ (ranges.foldl markRange coverage).slots ↔
        slot ∈ coverage.slots ∨ ∃ r ∈ ranges, r.contains slot = true := by
  induction ranges generalizing coverage with
  | nil => simpa using h
  | cons r ranges ih =>
    obtain ⟨hnormalized, hslots⟩ := ih (markRange_normalized h r)
    refine ⟨hnormalized, fun slot => ?_⟩
    rw [List.foldl_cons, hslots, mem_slots_markRange, List.exists_mem_cons_iff, or_assoc]

theorem mark_spec {coverage : RingCoverage} (h : Normalized coverage.ranges) (m : Marking) :
    Normalized (coverage.mark m).ranges ∧
      ∀ slot, slot ∈ (coverage.mark m).slots ↔ slot ∈ coverage.slots ∨ slot ∈ m.marked := by
  cases m with
  | range r => exact ⟨markRange_normalized h r, mem_slots_markRange coverage r⟩
  | slot n =>
    refine ⟨markRange_normalized h _, fun slot => ?_⟩
    have hsingle : n ≤ slot ∧ slot < n + 1 ↔ slot = n := by omega
    rw [mark, markSlot, mem_slots_markRange, RingRange.contains_iff, hsingle]
    rfl
  | slots l =>
    obtain ⟨hnormalized, -, hslots⟩ := markSlots_spec h l
    exact ⟨hnormalized, hslots⟩
  | union other => exact foldl_markRange_spec h other.ranges

theorem run_mark_spec {coverage : RingCoverage} (h : Normalized coverage.ranges)
    (marks : List Marking) :
    Normalized (Histories.run mark coverage marks).ranges ∧
      ∀ slot, slot ∈ (Histories.run mark coverage marks).slots ↔
        slot ∈ coverage.slots ∨ ∃ m ∈ marks, slot ∈ m.marked := by
  induction marks generalizing coverage with
  | nil => simpa using h
  | cons m marks ih =>
    obtain ⟨hfirst, hmarked⟩ := mark_spec h m
    obtain ⟨hnormalized, hslots⟩ := ih hfirst
    refine ⟨hnormalized, fun slot => ?_⟩
    rw [Histories.run_cons, hslots, hmarked, List.exists_mem_cons_iff, or_assoc]

theorem new_normalized : Normalized new.ranges := ⟨by simp [new], by simp [new]⟩

theorem fromRanges_spec (ranges : List RingRange) :
    Normalized (fromRanges ranges).ranges ∧
      ∀ slot, slot ∈ (fromRanges ranges).slots ↔ ∃ r ∈ ranges, r.contains slot = true := by
  obtain ⟨hnormalized, hslots⟩ := foldl_markRange_spec new_normalized ranges
  refine ⟨hnormalized, fun slot => ?_⟩
  rw [fromRanges, hslots]
  simp [mem_slots, new]

/-! The gaps are kept apart by the ranges between them. -/

theorem uncoveredTail_of_ge {range : RingRange} {cursor : ℕ} (h : cursor ≥ range.end) :
    uncoveredTail range cursor = [] :=
  if_neg (not_lt.mpr h)

theorem uncoveredTail_normalized (range : RingRange) (cursor : ℕ) :
    Normalized (uncoveredTail range cursor) := by
  unfold uncoveredTail
  split_ifs with h
  · exact ⟨by simpa using h, List.pairwise_singleton _ _⟩
  · exact ⟨by simp, List.Pairwise.nil⟩

theorem Normalized.cons {r : RingRange} {ranges : List RingRange} (h : Normalized ranges)
    (hne : r.start < r.end) (hafter : ∀ x ∈ ranges, r.end < x.start) : Normalized (r :: ranges) :=
  ⟨List.forall_mem_cons.mpr ⟨hne, h.nonempty⟩, List.pairwise_cons.mpr ⟨hafter, h.separated⟩⟩

theorem uncoveredFrom_start_ge (range : RingRange) (ranges : List RingRange) (cursor : ℕ) :
    ∀ gap ∈ uncoveredFrom range cursor ranges, cursor ≤ gap.start := by
  induction ranges generalizing cursor with
  | nil => simp [uncoveredFrom, uncoveredTail]
  | cons covered rest ih =>
    rw [uncoveredFrom]
    split_ifs with hpast hbeyond
    · exact ih cursor
    · simp [uncoveredTail]
    · simp only [List.forall_mem_append]
      refine ⟨by simp [uncoveredGap], fun gap hgap => ?_⟩
      refine (le_max_left cursor (min covered.end range.end)).trans ?_
      split_ifs at hgap with hdone
      · simp [uncoveredTail_of_ge hdone] at hgap
      · exact ih _ gap hgap

theorem uncoveredFrom_normalized (range : RingRange) {ranges : List RingRange}
    (h : Normalized ranges) (cursor : ℕ) : Normalized (uncoveredFrom range cursor ranges) := by
  induction ranges generalizing cursor with
  | nil => exact uncoveredTail_normalized range cursor
  | cons covered rest ih =>
    have hne := h.nonempty covered List.mem_cons_self
    rw [uncoveredFrom]
    by_cases hpast : covered.end ≤ cursor
    · rw [if_pos hpast]
      exact ih h.tail cursor
    by_cases hbeyond : covered.start ≥ range.end
    · rw [if_neg hpast, if_pos hbeyond]
      exact uncoveredTail_normalized range cursor
    rw [if_neg hpast, if_neg hbeyond]
    simp only
    -- what follows starts at the end of `covered`, strictly behind the gap in front of it
    have hrest : ∀ next, next = max cursor (min covered.end range.end) →
        let later := if next ≥ range.end then uncoveredTail range next
          else uncoveredFrom range next rest
        Normalized later ∧ ∀ gap ∈ later, covered.start < gap.start := by
      intro next hnext
      by_cases hdone : next ≥ range.end
      · simp only [if_pos hdone]
        refine ⟨uncoveredTail_normalized range next, ?_⟩
        simp [uncoveredTail_of_ge hdone]
      · simp only [if_neg hdone]
        refine ⟨ih h.tail next, fun gap hgap => ?_⟩
        have := uncoveredFrom_start_ge range rest next gap hgap
        omega
    obtain ⟨hlater, hbehind⟩ := hrest _ rfl
    by_cases hgap : covered.start > cursor
    · rw [uncoveredGap, if_pos hgap]
      refine hlater.cons (by simp only; omega) fun gap hmem => ?_
      have := hbehind gap hmem
      simp only
      omega
    · rw [uncoveredGap, if_neg hgap]
      exact hlater

theorem uncoveredWithin_normalized {coverage : RingCoverage} (h : Normalized coverage.ranges)
    (range : RingRange) : Normalized (coverage.uncoveredWithin range) := by
  unfold uncoveredWithin
  split_ifs
  · exact ⟨by simp, List.Pairwise.nil⟩
  · exact uncoveredFrom_normalized range h range.start

theorem marked_coverage_exact (ranges : List RingRange) (marks : List Marking) :
    match (fromRanges ranges).markAll? marks with
    | none => ∃ m ∈ marks, ¬ m.Representable
    | some coverage =>
      (∀ m ∈ marks, m.Representable) ∧ Normalized coverage.ranges ∧
        (∀ slot, slot ∈ coverage.slots ↔
          (∃ r ∈ ranges, r.contains slot = true) ∨ ∃ m ∈ marks, slot ∈ m.marked) ∧
        ∀ range, Normalized (coverage.uncoveredWithin range) ∧
          ∀ slot, (∃ gap ∈ coverage.uncoveredWithin range, gap.contains slot = true) ↔
            range.contains slot = true ∧ slot ∉ coverage.slots := by
  obtain ⟨hstart, hranges⟩ := fromRanges_spec ranges
  obtain ⟨hnormalized, hslots⟩ := run_mark_spec hstart marks
  rw [markAll?_eq]
  by_cases hfits : ∀ m ∈ marks, m.Representable
  · rw [if_pos hfits]
    refine ⟨hfits, hnormalized, fun slot => ?_, fun range => ?_⟩
    · rw [hslots, hranges]
    · refine ⟨uncoveredWithin_normalized hnormalized range, fun slot => ?_⟩
      rw [← mem_uncoveredWithin hnormalized range slot, List.any_eq_true]
  · rw [if_neg hfits]
    simpa using hfits

theorem last_u64_not_marked : new.markAll? [.slot u64Max] = none := by decide

end CrashLab.WorkerRing.RingCoverage
