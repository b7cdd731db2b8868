import CrashLab.Cuts
import CrashLab.MachineInts

namespace CrashLab.WorkerRing

open MachineInts

def ringSize : ℕ := 65536

/-- splitmix64 finalizer; the wrapping `u64` operations reduce modulo `2 ^ 64`. -/
def mix64 (z : ℕ) : ℕ :=
  let z := (z + 0x9E3779B97F4A7C15) % 2 ^ 64
  let z := ((z ^^^ (z >>> 30)) * 0xBF58476D1CE4E5B9) % 2 ^ 64
  let z := ((z ^^^ (z >>> 27)) * 0x94D049BB133111EB) % 2 ^ 64
  z ^^^ (z >>> 31)

def ringSlot (seedIndex : ℕ) : ℕ := mix64 seedIndex % ringSize

theorem ringSlot_lt (seedIndex : ℕ) : ringSlot seedIndex < ringSize :=
  Nat.mod_lt _ (by decide)

structure RingRange where
  start : ℕ
  «end» : ℕ
deriving DecidableEq, Repr

namespace RingRange

def isEmpty (r : RingRange) : Bool := r.end ≤ r.start

def contains (r : RingRange) (slot : ℕ) : Bool := r.start ≤ slot && slot < r.end

def intersection (r other : RingRange) : Option RingRange :=
  let start := max r.start other.start
  let stop := min r.end other.end
  if start < stop then some ⟨start, stop⟩ else none

@[simp] theorem contains_iff (r : RingRange) (slot : ℕ) :
    r.contains slot = true ↔ r.start ≤ slot ∧ slot < r.end := by simp [contains]

@[simp] theorem isEmpty_iff (r : RingRange) : r.isEmpty = true ↔ r.end ≤ r.start := by
  simp [isEmpty]

theorem intersection_eq_none (r other : RingRange) :
    r.intersection other = none ↔ min r.end other.end ≤ max r.start other.start := by
  simp only [intersection]
  split_ifs with h <;> simp at h ⊢ <;> omega

theorem intersection_isSome (r other : RingRange) :
    (r.intersection other).isSome = true ↔
      ∃ slot, r.contains slot = true ∧ other.contains slot = true := by
  simp only [contains_iff]
  by_cases h : r.intersection other = none
  · have hle := (intersection_eq_none r other).mp h
    simp only [h, Option.isSome_none, Bool.false_eq_true, false_iff, not_exists]
    intro slot
    omega
  · have hlt : max r.start other.start < min r.end other.end := by
      by_contra hle
      exact h ((intersection_eq_none r other).mpr (by omega))
    simp only [Option.isSome_iff_ne_none.mpr h, true_iff]
    exact ⟨max r.start other.start, by omega, by omega⟩

end RingRange

def ringRangeFor (workerIndex numWorkers : ℕ) : Option RingRange :=
  if numWorkers = 0 ∨ numWorkers ≤ workerIndex then none
  else
    let base := ringSize / numWorkers
    let remainder := ringSize % numWorkers
    let start := workerIndex * base + min workerIndex remainder
    let len := base + if workerIndex < remainder then 1 else 0
    some ⟨start, start + len⟩

theorem ringRangeFor_of_lt {w n : ℕ} (h : w < n) : ringRangeFor w n =
    some ⟨Cuts.evenCut ringSize n w, Cuts.evenCut ringSize n (w + 1)⟩ := by
  have hvalid : ¬ (n = 0 ∨ n ≤ w) := by omega
  rw [ringRangeFor, if_neg hvalid, Cuts.evenCut_succ]
  rfl

theorem ringRangeFor_eq_some {w n : ℕ} {r : RingRange} : ringRangeFor w n = some r ↔
    w < n ∧ r = ⟨Cuts.evenCut ringSize n w, Cuts.evenCut ringSize n (w + 1)⟩ := by
  by_cases h : w < n
  · rw [ringRangeFor_of_lt h, Option.some_inj]
    exact ⟨fun hr => ⟨h, hr.symm⟩, fun hr => hr.2.symm⟩
  · rw [ringRangeFor, if_pos (by omega)]
    simp [h]

theorem ringRangeFor_le {w n : ℕ} {r : RingRange} (h : ringRangeFor w n = some r) :
    r.start ≤ r.end ∧ r.end ≤ ringSize := by
  obtain ⟨hw, rfl⟩ := ringRangeFor_eq_some.mp h
  have hmono := Cuts.evenCut_mono ringSize n
  have hlast := hmono (show w + 1 ≤ n from hw)
  rw [Cuts.evenCut_count ringSize n (Nat.zero_lt_of_lt hw)] at hlast
  exact ⟨hmono (Nat.le_succ w), hlast⟩

inductive WorkerPartitionError where
  | zeroWorkers
  | workerIndexOutOfRange (workerIndex numWorkers : ℕ)
deriving DecidableEq, Repr

structure WorkerPartition where
  workerIndex : ℕ
  numWorkers : ℕ
  range : RingRange
  owns : ringRangeFor workerIndex numWorkers = some range

namespace WorkerPartition

/-- The `expect` of the source cannot fail: the range exists once the two checks passed. -/
def tryNew (workerIndex numWorkers : ℕ) : Except WorkerPartitionError WorkerPartition :=
  if numWorkers = 0 then .error .zeroWorkers
  else if h : numWorkers ≤ workerIndex then .error (.workerIndexOutOfRange workerIndex numWorkers)
  else .ok ⟨workerIndex, numWorkers, _, ringRangeFor_of_lt (Nat.lt_of_not_le h)⟩

def ownsSlot (p : WorkerPartition) (slot : ℕ) : Bool := p.range.contains slot

def ownsSeed (p : WorkerPartition) (seedIndex : ℕ) : Bool := p.ownsSlot (ringSlot seedIndex)

def seedIndices (p : WorkerPartition) (totalSeeds : ℕ) : List ℕ :=
  (List.range totalSeeds).filter p.ownsSeed

theorem workerIndex_lt (p : WorkerPartition) : p.workerIndex < p.numWorkers :=
  (ringRangeFor_eq_some.mp p.owns).1

theorem ownsSeed_iff (p : WorkerPartition) (i : ℕ) : p.ownsSeed i = true ↔
    p.range.start ≤ ringSlot i ∧ ringSlot i < p.range.end := by
  rw [ownsSeed, ownsSlot, RingRange.contains_iff]

theorem tryNew_of_lt {w n : ℕ} (h : w < n) :
    ∃ p, tryNew w n = .ok p ∧ p.workerIndex = w ∧ p.numWorkers = n := by
  refine ⟨⟨w, n, _, ringRangeFor_of_lt h⟩, ?_, rfl, rfl⟩
  rw [tryNew, if_neg (by omega), dif_neg (by omega)]

theorem tryNew_ok {w n : ℕ} {p : WorkerPartition} (h : tryNew w n = .ok p) :
    p.workerIndex = w ∧ p.numWorkers = n := by
  unfold tryNew at h
  split_ifs at h with h0 hw
  cases h
  exact ⟨rfl, rfl⟩

end WorkerPartition

def workerForSeed (seedIndex numWorkers : ℕ) : Option ℕ :=
  if numWorkers = 0 then none
  else
    let slot := ringSlot seedIndex
    let base := ringSize / numWorkers
    let remainder := ringSize % numWorkers
    if base = 0 then
      if slot < remainder then some (asU32 slot) else none
    else
      let large := base + 1
      let largeSpan := remainder * large
      if slot < largeSpan then some (asU32 (slot / large))
      else some (asU32 (remainder + (slot - largeSpan) / base))

theorem workerForSeed_spec {n : ℕ} (hn : 0 < n) (i : ℕ) :
    ∃ w, workerForSeed i n = some w ∧ w < n ∧
      Cuts.evenCut ringSize n w ≤ ringSlot i ∧ ringSlot i < Cuts.evenCut ringSize n (w + 1) := by
  have hslot := ringSlot_lt i
  have hwidth : ringSize < 2 ^ 32 := by decide
  have hrem := Nat.mod_lt ringSize hn
  have hbound : ∀ w, Cuts.evenCut ringSize n w ≤ ringSlot i → w < n := by
    intro w hw
    by_contra hge
    have hle := Cuts.evenCut_mono ringSize n (show n ≤ w by omega)
    rw [Cuts.evenCut_count ringSize n hn] at hle
    omega
  unfold workerForSeed
  rw [if_neg hn.ne']
  by_cases hbase : ringSize / n = 0
  · -- more workers than slots: the first `ringSize` workers own one slot each
    have hmod : ringSize % n = ringSize := by
      have := Nat.div_add_mod ringSize n
      rw [hbase] at this
      omega
    have hspan : ringSlot i < ringSize % n * (ringSize / n + 1) := by
      rw [hbase, hmod]
      omega
    have hlarge := Cuts.evenCut_large ringSize n hspan
    simp only [hbase, Nat.zero_add, Nat.div_one] at hlarge
    simp only [hbase, if_true, hmod, hslot, asU32_of_lt (hslot.trans hwidth)]
    exact ⟨ringSlot i, rfl, hbound _ hlarge.2.1, hlarge.2⟩
  · simp only [hbase, if_false]
    by_cases hspan : ringSlot i < ringSize % n * (ringSize / n + 1)
    · have hlarge := Cuts.evenCut_large ringSize n hspan
      have hsmall : ringSlot i / (ringSize / n + 1) < ringSize :=
        (Nat.div_le_self _ _).trans_lt hslot
      rw [if_pos hspan, asU32_of_lt (hsmall.trans hwidth)]
      exact ⟨_, rfl, hbound _ hlarge.2.1, hlarge.2⟩
    · have hsmall := Cuts.evenCut_small ringSize n (Nat.pos_of_ne_zero hbase)
        (Nat.le_of_not_lt hspan)
      have hw := hbound _ hsmall.1
      have hn' : n ≤ ringSize := by
        by_contra hgt
        exact hbase (Nat.div_eq_of_lt (by omega))
      rw [if_neg hspan, asU32_of_lt ((hw.trans_le hn').trans hwidth)]
      exact ⟨_, rfl, hw, hsmall⟩

def poolSeedIndices (numWorkers totalSeeds : ℕ) : List ℕ :=
  (List.range numWorkers).flatMap fun w =>
    match WorkerPartition.tryNew w numWorkers with
    | .ok p => p.seedIndices totalSeeds
    | .error _ => []

section Ownership

variable {n : ℕ}

theorem ringRangeFor_adjacent {w : ℕ} (h : w + 1 < n) :
    ∃ a b, ringRangeFor w n = some a ∧ ringRangeFor (w + 1) n = some b ∧ a.end = b.start :=
  ⟨_, _, ringRangeFor_of_lt (by omega), ringRangeFor_of_lt h, rfl⟩

theorem ringRangeFor_disjoint {v w : ℕ} {a b : RingRange} (hvw : v ≠ w)
    (ha : ringRangeFor v n = some a) (hb : ringRangeFor w n = some b) : a.intersection b = none := by
  obtain ⟨-, rfl⟩ := ringRangeFor_eq_some.mp ha
  obtain ⟨-, rfl⟩ := ringRangeFor_eq_some.mp hb
  rw [RingRange.intersection_eq_none]
  rcases Cuts.parts_disjoint (Cuts.evenCut_mono ringSize n) hvw with h | h <;> simp only <;> omega

theorem ringRangeFor_union (hn : 0 < n) (slot : ℕ) :
    slot < ringSize ↔ ∃ w r, ringRangeFor w n = some r ∧ r.contains slot = true := by
  constructor
  · intro h
    rw [← Cuts.evenCut_count ringSize n hn] at h
    obtain ⟨w, hw, hpart⟩ := Cuts.exists_part (by simp) h
    exact ⟨w, _, ringRangeFor_of_lt hw, (RingRange.contains_iff _ _).mpr hpart⟩
  · rintro ⟨w, r, hr, hc⟩
    have hle := ringRangeFor_le hr
    have hin := (RingRange.contains_iff _ _).mp hc
    omega

theorem workerForSeed_iff (hn : 0 < n) (i w : ℕ) : workerForSeed i n = some w ↔
    ∃ r, ringRangeFor w n = some r ∧ r.contains (ringSlot i) = true := by
  obtain ⟨v, hv, hlt, hpart⟩ := workerForSeed_spec hn i
  rw [hv, Option.some_inj]
  constructor
  · rintro rfl
    exact ⟨_, ringRangeFor_of_lt hlt, (RingRange.contains_iff _ _).mpr hpart⟩
  · rintro ⟨r, hr, hc⟩
    obtain ⟨-, rfl⟩ := ringRangeFor_eq_some.mp hr
    exact Cuts.part_unique (Cuts.evenCut_mono ringSize n) hpart ((RingRange.contains_iff _ _).mp hc)

theorem WorkerPartition.ownsSeed_iff_workerForSeed (p : WorkerPartition) (i : ℕ) :
    p.ownsSeed i = true ↔ workerForSeed i p.numWorkers = some p.workerIndex := by
  rw [workerForSeed_iff (Nat.zero_lt_of_lt p.workerIndex_lt)]
  constructor
  · intro h
    exact ⟨p.range, p.owns, h⟩
  · rintro ⟨r, hr, hc⟩
    obtain rfl := Option.some_inj.mp (p.owns.symm.trans hr)
    exact hc

theorem exists_owner (hn : 0 < n) (i : ℕ) :
    ∃ p, WorkerPartition.tryNew p.workerIndex n = .ok p ∧ p.ownsSeed i = true := by
  obtain ⟨w, hw, hlt, -⟩ := workerForSeed_spec hn i
  obtain ⟨p, hp, rfl, rfl⟩ := WorkerPartition.tryNew_of_lt hlt
  exact ⟨p, hp, (p.ownsSeed_iff_workerForSeed i).mpr hw⟩

theorem owner_existsUnique (hn : 0 < n) (i : ℕ) :
    ∃! w, w < n ∧ ∃ p, WorkerPartition.tryNew w n = .ok p ∧ p.ownsSeed i = true := by
  obtain ⟨p, hp, hown⟩ := exists_owner hn i
  obtain ⟨-, hcount⟩ := WorkerPartition.tryNew_ok hp
  refine ⟨p.workerIndex, ⟨hcount ▸ p.workerIndex_lt, p, hp, hown⟩, ?_⟩
  rintro v ⟨-, q, hq, hqown⟩
  obtain ⟨rfl, hqn⟩ := WorkerPartition.tryNew_ok hq
  rw [WorkerPartition.ownsSeed_iff_workerForSeed] at hown hqown
  rw [hcount] at hown
  rw [hqn] at hqown
  exact Option.some_inj.mp (hqown.symm.trans hown)

theorem mem_seedIndices {p : WorkerPartition} {total i : ℕ} :
    i ∈ p.seedIndices total ↔ i < total ∧ p.ownsSeed i = true := by
  rw [WorkerPartition.seedIndices, List.mem_filter, List.mem_range]

theorem mem_poolSeedIndices {total i : ℕ} : i ∈ poolSeedIndices n total ↔
    i < total ∧ ∃ w < n, ∃ p, WorkerPartition.tryNew w n = .ok p ∧ p.ownsSeed i = true := by
  simp only [poolSeedIndices, List.mem_flatMap, List.mem_range]
  constructor
  · rintro ⟨w, hw, hi⟩
    obtain ⟨p, hp, -⟩ := WorkerPartition.tryNew_of_lt hw
    rw [hp] at hi
    obtain ⟨hlt, hown⟩ := mem_seedIndices.mp hi
    exact ⟨hlt, w, hw, p, hp, hown⟩
  · rintro ⟨hlt, w, hw, p, hp, hown⟩
    refine ⟨w, hw, ?_⟩
    rw [hp]
    exact mem_seedIndices.mpr ⟨hlt, hown⟩

theorem poolSeedIndices_nodup (hn : 0 < n) (total : ℕ) : (poolSeedIndices n total).Nodup := by
  rw [poolSeedIndices, List.nodup_flatMap]
  constructor
  · intro w _
    split
    · exact List.nodup_range.filter _
    · exact List.nodup_nil
  · apply List.nodup_range.imp
    intro v w hvw i hv hw
    have owned : ∀ u, i ∈ (match WorkerPartition.tryNew u n with
        | .ok p => p.seedIndices total
        | .error _ => []) → u < n ∧ ∃ p, WorkerPartition.tryNew u n = .ok p ∧ p.ownsSeed i = true := by
      intro u hu
      split at hu
      · rename_i p hp
        obtain ⟨rfl, rfl⟩ := WorkerPartition.tryNew_ok hp
        exact ⟨p.workerIndex_lt, p, hp, (mem_seedIndices.mp hu).2⟩
      · simp at hu
    exact hvw ((owner_existsUnique hn i).unique (owned v hv) (owned w hw))

theorem poolSeedIndices_perm (hn : 0 < n) (total : ℕ) :
    (poolSeedIndices n total).Perm (List.range total) := by
  apply (List.perm_ext_iff_of_nodup (poolSeedIndices_nodup hn total) List.nodup_range).mpr
  intro i
  obtain ⟨w, ⟨hw, hown⟩, -⟩ := owner_existsUnique hn i
  rw [mem_poolSeedIndices, List.mem_range]
  exact ⟨fun h => h.1, fun h => ⟨h, w, hw, hown⟩⟩

theorem ring_ownership (n : ℕ) (hn : 1 ≤ n) :
    (∃ r, ringRangeFor 0 n = some r ∧ r.start = 0) ∧
    (∃ r, ringRangeFor (n - 1) n = some r ∧ r.end = ringSize) ∧
    (∀ w, w + 1 < n → ∃ a b, ringRangeFor w n = some a ∧ ringRangeFor (w + 1) n = some b ∧
      a.end = b.start) ∧
    (∀ v w a b, v ≠ w → ringRangeFor v n = some a → ringRangeFor w n = some b →
      a.intersection b = none) ∧
    (∀ slot, slot < ringSize ↔ ∃ w r, ringRangeFor w n = some r ∧ r.contains slot = true) ∧
    (∀ i w, workerForSeed i n = some w ↔
      ∃ r, ringRangeFor w n = some r ∧ r.contains (ringSlot i) = true) ∧
    (∀ i, ∃! w, w < n ∧ ∃ p, WorkerPartition.tryNew w n = .ok p ∧ p.ownsSeed i = true) ∧
    (∀ total, (poolSeedIndices n total).Perm (List.range total)) := by
  refine ⟨?_, ?_, fun w => ringRangeFor_adjacent, fun v w a b => ringRangeFor_disjoint,
    ringRangeFor_union hn, workerForSeed_iff hn, owner_existsUnique hn, poolSeedIndices_perm hn⟩
  · exact ⟨_, ringRangeFor_of_lt hn, Cuts.evenCut_zero ringSize n⟩
  · refine ⟨_, ringRangeFor_of_lt (by omega), ?_⟩
    have hlast : n - 1 + 1 = n := by omega
    simp only [hlast, Cuts.evenCut_count ringSize n hn]

theorem ring_ownership_more_workers_than_slots :
    (poolSeedIndices 65541 12).Perm (List.range 12) :=
  (ring_ownership 65541 (by decide)).2.2.2.2.2.2.2 12

end Ownership

end CrashLab.WorkerRing
