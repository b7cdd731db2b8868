import CrashLab.LeaseLedger
import Mathlib.Order.Interval.Set.Basic

namespace CrashLab.WorkerRing

open Sorting

structure RingCoverage where
  ranges : List RingRange
  generation : ℕ
  completedSeedIndices : Finset ℕ
  leaseLedger : LeaseLedger
deriving DecidableEq

namespace RingCoverage

def new : RingCoverage := ⟨[], 0, ∅, .default⟩

def absorb (merged : RingRange) : List RingRange → List RingRange × RingRange
  | [] => ([], merged)
  | existing :: rest =>
    if existing.end < merged.start ∨ existing.start > merged.end then
      (existing :: (absorb merged rest).1, (absorb merged rest).2)
    else absorb ⟨min merged.start existing.start, max merged.end existing.end⟩ rest

def markRange (coverage : RingCoverage) (range : RingRange) : RingCoverage :=
  if range.isEmpty then coverage
  else
    let (out, merged) := absorb range coverage.ranges
    { coverage with ranges := sortByKey (·.start) (out ++ [merged]) }

def markSlot (coverage : RingCoverage) (slot : ℕ) : RingCoverage :=
  coverage.markRange ⟨slot, slot + 1⟩

def markRuns (coverage : RingCoverage) (runStart runEnd : ℕ) : List ℕ → RingCoverage
  | [] => coverage.markRange ⟨runStart, runEnd⟩
  | slot :: slots =>
    if slot = runEnd then markRuns coverage runStart (slot + 1) slots
    else markRuns (coverage.markRange ⟨runStart, runEnd⟩) slot (slot + 1) slots

def markSlots (coverage : RingCoverage) (slots : List ℕ) : RingCoverage :=
  match dedupAdjacent (sortByKey id slots) with
  | [] => coverage
  | first :: rest => coverage.markRuns first (first + 1) rest

def fromRanges (ranges : List RingRange) : RingCoverage := ranges.foldl markRange new

def union (coverage other : RingCoverage) : RingCoverage := other.ranges.foldl markRange coverage

def isSlotCovered (coverage : RingCoverage) (slot : ℕ) : Bool :=
  coverage.ranges.any (·.contains slot)

def uncoveredTail (range : RingRange) (cursor : ℕ) : List RingRange :=
  if cursor < range.end then [⟨cursor, range.end⟩] else []

def uncoveredGap (range covered : RingRange) (cursor : ℕ) : List RingRange :=
  if covered.start > cursor then [⟨cursor, min covered.start range.end⟩] else []

def uncoveredFrom (range : RingRange) (cursor : ℕ) : List RingRange → List RingRange
  | [] => uncoveredTail range cursor
  | covered :: rest =>
    if covered.end ≤ cursor then uncoveredFrom range cursor rest
    else if covered.start ≥ range.end then uncoveredTail range cursor
    else
      let next := max cursor (min covered.end range.end)
      uncoveredGap range covered cursor ++
        if next ≥ range.end then uncoveredTail range next else uncoveredFrom range next rest

def uncoveredWithin (coverage : RingCoverage) (range : RingRange) : List RingRange :=
  if range.isEmpty then [] else uncoveredFrom range range.start coverage.ranges

def isRangeCovered (coverage : RingCoverage) (range : RingRange) : Bool :=
  (coverage.uncoveredWithin range).isEmpty

def isSeedCompleted (coverage : RingCoverage) (seedIndex : ℕ) : Bool :=
  seedIndex ∈ coverage.completedSeedIndices

def markSeedCompleted (coverage : RingCoverage) (seedIndex : ℕ) : Bool × RingCoverage :=
  (!coverage.isSeedCompleted seedIndex, { coverage with
    completedSeedIndices := insert seedIndex coverage.completedSeedIndices })

def recordSeedCompleted (coverage : RingCoverage) (token : LeaseToken) (seedIndex nowMs : ℕ) :
    Except LeaseError Bool × RingCoverage :=
  match coverage.leaseLedger.validateWrite token (ringSlot seedIndex) nowMs with
  | (.error e, ledger) => (.error e, { coverage with leaseLedger := ledger })
  | (.ok (), ledger) =>
    let (inserted, coverage) := { coverage with leaseLedger := ledger }.markSeedCompleted seedIndex
    (.ok inserted, coverage)

/-! The ranges stand for a set of slots: marking is union and `uncoveredWithin` is difference. -/

def slots (coverage : RingCoverage) : Set ℕ := {slot | ∃ r ∈ coverage.ranges, r.contains slot = true}

theorem mem_slots {coverage : RingCoverage} {slot : ℕ} :
    slot ∈ coverage.slots ↔ ∃ r ∈ coverage.ranges, r.contains slot = true := Iff.rfl

theorem isSlotCovered_iff (coverage : RingCoverage) (slot : ℕ) :
    coverage.isSlotCovered slot = true ↔ slot ∈ coverage.slots := by
  rw [isSlotCovered, List.any_eq_true, mem_slots]

structure Normalized (ranges : List RingRange) : Prop where
  nonempty : ∀ r ∈ ranges, r.start < r.end
  separated : ranges.Pairwise fun a b => a.end < b.start

theorem Normalized.tail {r : RingRange} {ranges : List RingRange} (h : Normalized (r :: ranges)) :
    Normalized ranges :=
  ⟨fun x hx => h.nonempty x (List.mem_cons_of_mem _ hx), h.separated.of_cons⟩

theorem Normalized.head_lt {r x : RingRange} {ranges : List RingRange}
    (h : Normalized (r :: ranges)) (hx : x ∈ ranges) : r.end < x.start :=
  List.rel_of_pairwise_cons h.separated hx

attribute [grind =] absorb

theorem absorb_contains (slot : ℕ) {merged : RingRange} (h : merged.start < merged.end)
    (ranges : List RingRange) :
    ((∃ r ∈ (absorb merged ranges).1, r.contains slot = true) ∨
        (absorb merged ranges).2.contains slot = true) ↔
      (∃ r ∈ ranges, r.contains slot = true) ∨ merged.contains slot = true := by
  induction ranges generalizing merged with
  | nil => simp [absorb]
  | cons existing rest ih =>
    rw [absorb]
    split_ifs with hapart
    · simp only [List.exists_mem_cons_iff, or_assoc, ih h]
    · rw [ih (by simp only; omega)]
      simp only [List.exists_mem_cons_iff, RingRange.contains_iff]
      have hhull : min merged.start existing.start ≤ slot ∧ slot < max merged.end existing.end ↔
          (existing.start ≤ slot ∧ slot < existing.end) ∨
            merged.start ≤ slot ∧ slot < merged.end := by omega
      rw [hhull, or_left_comm, or_assoc]

theorem absorb_sublist (merged : RingRange) (ranges : List RingRange) :
    (absorb merged ranges).1.Sublist ranges := by
  induction ranges generalizing merged with
  | nil => exact List.Sublist.refl _
  | cons existing rest ih =>
    rw [absorb]
    split_ifs
    · exact (ih merged).cons_cons existing
    · exact (ih _).cons existing

theorem absorb_grows (merged : RingRange) (ranges : List RingRange) :
    (absorb merged ranges).2.start ≤ merged.start ∧ merged.end ≤ (absorb merged ranges).2.end := by
  induction ranges generalizing merged with
  | nil => exact ⟨le_refl _, le_refl _⟩
  | cons existing rest ih =>
    rw [absorb]
    split_ifs
    · exact ih merged
    · have := ih ⟨min merged.start existing.start, max merged.end existing.end⟩
      simp only at this
      omega

theorem absorb_start_gt {bound : ℕ} {merged : RingRange} (hm : bound < merged.start)
    {ranges : List RingRange} (h : ∀ r ∈ ranges, bound < r.start) :
    bound < (absorb merged ranges).2.start := by
  induction ranges generalizing merged with
  | nil => exact hm
  | cons existing rest ih =>
    obtain ⟨hhead, hrest⟩ := List.forall_mem_cons.mp h
    rw [absorb]
    split_ifs
    · exact ih hm hrest
    · exact ih (lt_min hm hhead) hrest

theorem absorb_of_after {merged : RingRange} {ranges : List RingRange}
    (h : ∀ r ∈ ranges, merged.end < r.start) : absorb merged ranges = (ranges, merged) := by
  induction ranges with
  | nil => rfl
  | cons existing rest ih =>
    obtain ⟨hhead, hrest⟩ := List.forall_mem_cons.mp h
    rw [absorb, if_pos (Or.inr hhead), ih hrest]

theorem absorb_apart {merged : RingRange} {ranges : List RingRange} (h : Normalized ranges) :
    ∀ r ∈ (absorb merged ranges).1,
      r.end < (absorb merged ranges).2.start ∨ (absorb merged ranges).2.end < r.start := by
  induction ranges generalizing merged with
  | nil => simp [absorb]
  | cons existing rest ih =>
    have hlater : ∀ r ∈ rest, existing.end < r.start := fun r hr => h.head_lt hr
    rw [absorb]
    split_ifs with hapart
    · simp only [List.forall_mem_cons]
      refine ⟨?_, ih h.tail⟩
      rcases hapart with hbefore | hafter
      · exact Or.inl (absorb_start_gt hbefore hlater)
      · have hne := h.nonempty existing List.mem_cons_self
        rw [absorb_of_after fun r hr => by have := hlater r hr; omega]
        exact Or.inr hafter
    · exact ih h.tail

theorem mem_slots_markRange (coverage : RingCoverage) (range : RingRange) (slot : ℕ) :
    slot ∈ (coverage.markRange range).slots ↔ slot ∈ coverage.slots ∨ range.contains slot = true := by
  unfold markRange
  split_ifs with hempty
  · have hnot : ¬ range.contains slot = true := by
      rw [RingRange.isEmpty_iff] at hempty
      rw [RingRange.contains_iff]
      omega
    exact (or_iff_left hnot).symm
  · rw [RingRange.isEmpty_iff, not_le] at hempty
    rw [mem_slots, mem_slots, ← absorb_contains slot hempty]
    simp only [mem_sortByKey, List.mem_append, List.mem_singleton, or_and_right, exists_or,
      exists_eq_left]

theorem markRange_normalized {coverage : RingCoverage} (h : Normalized coverage.ranges)
    (range : RingRange) : Normalized (coverage.markRange range).ranges := by
  unfold markRange
  split_ifs with hempty
  · exact h
  · rw [RingRange.isEmpty_iff, not_le] at hempty
    have hgrows := absorb_grows range coverage.ranges
    have hkept := absorb_sublist range coverage.ranges
    have hne : ∀ r ∈ (absorb range coverage.ranges).1 ++ [(absorb range coverage.ranges).2],
        r.start < r.end := by
      intro r hr
      rcases List.mem_append.mp hr with hr | hr
      · exact h.nonempty r (hkept.subset hr)
      · rw [List.mem_singleton.mp hr]
        omega
    refine ⟨fun r hr => hne r ((mem_sortByKey _).mp hr), ?_⟩
    refine sortByKey_pairwise (R := fun a b => a.end < b.start ∨ b.end < a.start)
      (fun a b => Or.symm) ?_ ?_
    · rw [List.pairwise_append]
      refine ⟨(h.separated.sublist hkept).imp Or.inl, List.pairwise_singleton _ _, ?_⟩
      intro a ha b hb
      rw [List.mem_singleton.mp hb]
      exact absorb_apart h a ha
    · intro a ha b hb hab hle
      have := hne a ha
      have := hne b hb
      omega

def SameBooks (coverage other : RingCoverage) : Prop :=
  other.generation = coverage.generation ∧
    other.completedSeedIndices = coverage.completedSeedIndices ∧
    other.leaseLedger = coverage.leaseLedger

theorem markRange_sameBooks (coverage : RingCoverage) (range : RingRange) :
    coverage.SameBooks (coverage.markRange range) := by
  unfold markRange
  split_ifs
  · exact ⟨rfl, rfl, rfl⟩
  · exact ⟨rfl, rfl, rfl⟩

theorem markRuns_spec {coverage : RingCoverage} (h : Normalized coverage.ranges)
    {runStart runEnd : ℕ} (hrun : runStart < runEnd) (l : List ℕ) :
    Normalized (coverage.markRuns runStart runEnd l).ranges ∧
      coverage.SameBooks (coverage.markRuns runStart runEnd l) ∧
      ∀ slot, slot ∈ (coverage.markRuns runStart runEnd l).slots ↔
        slot ∈ coverage.slots ∨ (runStart ≤ slot ∧ slot < runEnd) ∨ slot ∈ l := by
  induction l generalizing coverage runStart runEnd with
  | nil =>
    refine ⟨markRange_normalized h _, markRange_sameBooks coverage _, fun slot => ?_⟩
    rw [markRuns, mem_slots_markRange, RingRange.contains_iff]
    simp only [List.not_mem_nil, or_false]
  | cons next l ih =>
    rw [markRuns]
    split_ifs with hnext
    · obtain ⟨hnorm, hbooks, hslots⟩ := ih h (show runStart < next + 1 by omega)
      refine ⟨hnorm, hbooks, fun slot => ?_⟩
      rw [hslots, List.mem_cons]
      have hsplit : runStart ≤ slot ∧ slot < next + 1 ↔
          (runStart ≤ slot ∧ slot < runEnd) ∨ slot = next := by omega
      rw [hsplit]
      tauto
    · obtain ⟨hnorm, hbooks, hslots⟩ :=
        ih (markRange_normalized h ⟨runStart, runEnd⟩) (Nat.lt_succ_self next)
      have hfirst := markRange_sameBooks coverage ⟨runStart, runEnd⟩
      refine ⟨hnorm, ⟨hbooks.1.trans hfirst.1, hbooks.2.1.trans hfirst.2.1,
        hbooks.2.2.trans hfirst.2.2⟩, fun slot => ?_⟩
      rw [hslots, mem_slots_markRange, RingRange.contains_iff, List.mem_cons]
      have hsingle : next ≤ slot ∧ slot < next + 1 ↔ slot = next := by omega
      rw [hsingle]
      tauto

theorem markSlots_spec {coverage : RingCoverage} (h : Normalized coverage.ranges) (l : List ℕ) :
    Normalized (coverage.markSlots l).ranges ∧ coverage.SameBooks (coverage.markSlots l) ∧
      ∀ slot, slot ∈ (coverage.markSlots l).slots ↔ slot ∈ coverage.slots ∨ slot ∈ l := by
  have hmem : ∀ slot, slot ∈ dedupAdjacent (sortByKey id l) ↔ slot ∈ l := by
    intro slot
    rw [mem_dedupAdjacent, mem_sortByKey]
  unfold markSlots
  split
  · rename_i hnil
    refine ⟨h, ⟨rfl, rfl, rfl⟩, fun slot => ?_⟩
    rw [← hmem slot, hnil]
    simp only [List.not_mem_nil, or_false]
  · rename_i first rest hcons
    obtain ⟨hnorm, hbooks, hslots⟩ := markRuns_spec h (Nat.lt_succ_self first) rest
    refine ⟨hnorm, hbooks, fun slot => ?_⟩
    rw [hslots, ← hmem slot, hcons, List.mem_cons]
    have hsingle : first ≤ slot ∧ slot < first.succ ↔ slot = first := by omega
    rw [hsingle]

theorem uncoveredTail_spec (range : RingRange) (cursor : ℕ) :
    (∀ r ∈ uncoveredTail range cursor, r.start < r.end) ∧
      ∀ slot, (∃ r ∈ uncoveredTail range cursor, r.contains slot = true) ↔
        cursor ≤ slot ∧ slot < range.end := by
  unfold uncoveredTail
  split_ifs with h
  · simpa using h
  · refine ⟨by simp, fun slot => ?_⟩
    simp only [List.not_mem_nil, false_and, exists_false, false_iff]
    omega

theorem uncoveredGap_spec {range covered : RingRange} (hrange : covered.start < range.end)
    (cursor : ℕ) :
    (∀ r ∈ uncoveredGap range covered cursor, r.start < r.end) ∧
      ∀ slot, (∃ r ∈ uncoveredGap range covered cursor, r.contains slot = true) ↔
        cursor ≤ slot ∧ slot < covered.start := by
  have hmin : min covered.start range.end = covered.start := by omega
  unfold uncoveredGap
  split_ifs with h
  · simpa [hmin] using h
  · refine ⟨by simp, fun slot => ?_⟩
    simp only [List.not_mem_nil, false_and, exists_false, false_iff]
    omega

theorem uncoveredFrom_spec (range : RingRange) {ranges : List RingRange} (h : Normalized ranges)
    {cursor : ℕ} (hcursor : cursor < range.end) :
    (∀ r ∈ uncoveredFrom range cursor ranges, r.start < r.end) ∧
      ∀ slot, (∃ r ∈ uncoveredFrom range cursor ranges, r.contains slot = true) ↔
        (cursor ≤ slot ∧ slot < range.end) ∧ ¬ ∃ r ∈ ranges, r.contains slot = true := by
  induction ranges generalizing cursor with
  | nil =>
    simpa only [uncoveredFrom, List.not_mem_nil, false_and, exists_false, not_false_eq_true,
      and_true] using uncoveredTail_spec range cursor
  | cons covered rest ih =>
    have hne := h.nonempty covered List.mem_cons_self
    have hafter : ∀ slot, (∃ r ∈ rest, r.contains slot = true) → covered.end < slot := by
      rintro slot ⟨r, hr, hc⟩
      have := h.head_lt hr
      rw [RingRange.contains_iff] at hc
      omega
    simp only [List.exists_mem_cons_iff, RingRange.contains_iff covered]
    rw [uncoveredFrom]
    by_cases hpast : covered.end ≤ cursor
    · rw [if_pos hpast]
      obtain ⟨hnonempty, hmem⟩ := ih h.tail hcursor
      refine ⟨hnonempty, fun slot => ?_⟩
      rw [hmem, not_or]
      refine and_congr_right fun hin => ⟨fun hnot => ⟨by omega, hnot⟩, fun hnot => hnot.2⟩
    by_cases hbeyond : covered.start ≥ range.end
    · rw [if_neg hpast, if_pos hbeyond]
      obtain ⟨hnonempty, hmem⟩ := uncoveredTail_spec range cursor
      refine ⟨hnonempty, fun slot => ?_⟩
      rw [hmem, not_or]
      refine ⟨fun hin => ⟨hin, by omega, fun hc => ?_⟩, fun hin => hin.1⟩
      have := hafter slot hc
      omega
    rw [if_neg hpast, if_neg hbeyond]
    obtain ⟨hgapNonempty, hgap⟩ := uncoveredGap_spec (lt_of_not_ge hbeyond) cursor
    -- past this range the cursor stands at its end, or the loop is over
    have hrest : ∀ next, next = max cursor (min covered.end range.end) →
        let l := if next ≥ range.end then uncoveredTail range next else uncoveredFrom range next rest
        (∀ r ∈ l, r.start < r.end) ∧ ∀ slot, (∃ r ∈ l, r.contains slot = true) ↔
          (covered.end ≤ slot ∧ slot < range.end) ∧ ¬ ∃ r ∈ rest, r.contains slot = true := by
      intro next hnext
      by_cases hdone : next ≥ range.end
      · simp only [if_pos hdone]
        obtain ⟨hnonempty, hmem⟩ := uncoveredTail_spec range next
        refine ⟨hnonempty, fun slot => ?_⟩
        rw [hmem]
        omega
      · simp only [if_neg hdone]
        obtain rfl : next = covered.end := by omega
        exact ih h.tail (by omega)
    obtain ⟨hnonempty, hmem⟩ := hrest _ rfl
    refine ⟨fun r hr => ?_, fun slot => ?_⟩
    · rcases List.mem_append.mp hr with hr | hr
      · exact hgapNonempty r hr
      · exact hnonempty r hr
    · simp only [List.mem_append, or_and_right, exists_or]
      rw [hgap, hmem, not_or]
      constructor
      · rintro (hin | ⟨hin, hnot⟩)
        · refine ⟨by omega, by omega, fun hc => ?_⟩
          have := hafter slot hc
          omega
        · exact ⟨by omega, by omega, hnot⟩
      · rintro ⟨hin, hnc, hnot⟩
        by_cases hbefore : slot < covered.start
        · exact Or.inl (by omega)
        · exact Or.inr ⟨by omega, hnot⟩

theorem mem_uncoveredWithin {coverage : RingCoverage} (h : Normalized coverage.ranges)
    (range : RingRange) (slot : ℕ) :
    (coverage.uncoveredWithin range).any (·.contains slot) = true ↔
      range.contains slot = true ∧ slot ∉ coverage.slots := by
  rw [List.any_eq_true, uncoveredWithin, RingRange.contains_iff]
  split_ifs with hempty
  · rw [RingRange.isEmpty_iff] at hempty
    simp only [List.not_mem_nil, false_and, exists_false, false_iff]
    omega
  · rw [RingRange.isEmpty_iff, not_le] at hempty
    exact (uncoveredFrom_spec range h hempty).2 slot

end RingCoverage

end CrashLab.WorkerRing
