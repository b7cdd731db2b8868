import CrashLab.RunControl

namespace CrashLab.Run

open MachineInts WorkerRing Loops RingCoverage

theorem filter_range_succ (f : ℕ → Bool) (k : ℕ) : (List.range (k + 1)).filter f =
    (List.range k).filter f ++ if f k then [k] else [] := by
  rw [List.range_succ, List.filter_append]
  cases hf : f k <;> simp [hf]

theorem mem_filter_range {f : ℕ → Bool} {k i : ℕ} :
    i ∈ (List.range k).filter f ↔ i < k ∧ f i = true := by
  rw [List.mem_filter, List.mem_range]

theorem lastIndexForSlot_eq_some {pending : List RingRange} {total slot i : ℕ} :
    lastIndexForSlot pending total slot = some i ↔
      slotPending pending slot = true ∧ i < total ∧ ringSlot i = slot ∧
        ∀ j < total, ringSlot j = slot → j ≤ i := by
  induction total generalizing i with
  | zero => simp [lastIndexForSlot]
  | succ n ih =>
    have hstep : lastIndexForSlot pending (n + 1) = if slotPending pending (ringSlot n) then
        Function.update (lastIndexForSlot pending n) (ringSlot n) (some n)
        else lastIndexForSlot pending n := by
      rw [lastIndexForSlot, List.range_succ, List.foldl_append]
      rfl
    rw [hstep]
    by_cases hslot : ringSlot n = slot
    · subst hslot
      by_cases hpend : slotPending pending (ringSlot n) = true
      · simp only [hpend, if_true, Function.update_self, Option.some_inj, true_and]
        constructor
        · rintro rfl
          exact ⟨Nat.lt_succ_self _, rfl, fun j hj _ => Nat.le_of_lt_succ hj⟩
        · rintro ⟨hi, -, hmax⟩
          have := hmax n (Nat.lt_succ_self n) rfl
          omega
      · rw [if_neg hpend, ih]
        simp only [hpend, Bool.false_eq_true, false_and]
    · have hother : (if slotPending pending (ringSlot n) then
          Function.update (lastIndexForSlot pending n) (ringSlot n) (some n)
          else lastIndexForSlot pending n) slot = lastIndexForSlot pending n slot := by
        split_ifs
        · exact Function.update_of_ne (Ne.symm hslot) _ _
        · rfl
      rw [hother, ih]
      constructor
      · rintro ⟨hp, hi, hs, hmax⟩
        refine ⟨hp, by omega, hs, fun j hj hjs => ?_⟩
        rcases Nat.lt_succ_iff_lt_or_eq.mp hj with hj | rfl
        · exact hmax j hj hjs
        · exact absurd hjs hslot
      · rintro ⟨hp, hi, hs, hmax⟩
        have hne : i ≠ n := by rintro rfl; exact hslot hs
        exact ⟨hp, by omega, hs, fun j hj => hmax j (by omega)⟩

section Sweep

variable (cp : RunCheckpoint) (p : WorkerPartition) (total : ℕ) (h : Harness)

def todo (i : ℕ) : Bool :=
  slotPending (cp.ringCoverage.uncoveredWithin p.range) (ringSlot i) &&
    !cp.ringCoverage.isSeedCompleted i

def todoBelow (k : ℕ) : List ℕ := (List.range k).filter (todo cp p)

structure Settled (k : ℕ) (d : Driven) : Prop where
  recorded : d.recorded = todoBelow cp p k
  executed : d.executed = todoBelow cp p k
  next : d.checkpoint.nextSeedIndex = k
  schema : d.checkpoint.schema = cp.schema
  campaign : d.checkpoint.campaignId = cp.campaignId
  totalSeeds : d.checkpoint.totalSeeds = cp.totalSeeds
  ledger : d.checkpoint.ringCoverage.leaseLedger = cp.ringCoverage.leaseLedger
  completed : ∀ i, i ∈ d.checkpoint.ringCoverage.completedSeedIndices ↔
    i ∈ cp.ringCoverage.completedSeedIndices ∨ i ∈ todoBelow cp p k
  normalized : Normalized d.checkpoint.ringCoverage.ranges
  slots : ∀ slot, slot ∈ d.checkpoint.ringCoverage.slots ↔ slot ∈ cp.ringCoverage.slots ∨
    ∃ j < k, lastIndexForSlot (cp.ringCoverage.uncoveredWithin p.range) total slot = some j

def Passes (j : ℕ) : Prop :=
  (cp.ringCoverage.isRangeCovered p.range = true ∨ h.cancelled j = false) ∧
    (todo cp p j = true → h.work j = .ok ())

structure Swept (i : ℕ) (s : Sweep) : Prop where
  checkpoint : s.checkpoint = { cp with
    nextSeedIndex := s.checkpoint.nextSeedIndex
    ringCoverage := { cp.ringCoverage with
      completedSeedIndices := s.checkpoint.ringCoverage.completedSeedIndices } }
  completed : ∀ j, j ∈ s.checkpoint.ringCoverage.completedSeedIndices ↔
    j ∈ cp.ringCoverage.completedSeedIndices ∨ j ∈ todoBelow cp p i
  recorded : s.recorded = todoBelow cp p i
  worked : s.worked = (todoBelow cp p i).map fun j => (j, .ok ())
  slots : ∀ slot, slot ∈ s.completedSlots ↔
    ∃ j < i, lastIndexForSlot (cp.ringCoverage.uncoveredWithin p.range) total slot = some j
  passed : ∀ j < i, h.cancelled j = false ∧ (todo cp p j = true → h.work j = .ok ())

variable {cp p total h}

theorem executed_of_ok (d : Driven) (l : List ℕ) (tail : List (ℕ × Except String Unit))
    (hw : d.worked = (l.map fun j => (j, .ok ())) ++ tail)
    (htail : ∀ call ∈ tail, call.2.isOk = false) : d.executed = l := by
  have hnone : tail.filter (fun call => call.2.isOk) = [] := by
    apply List.filter_eq_nil_iff.mpr
    intro call hc
    rw [htail call hc]
    exact Bool.false_ne_true
  have hall : (l.map fun j => (j, (.ok () : Except String Unit))).filter (fun call => call.2.isOk) =
      l.map fun j => (j, .ok ()) := by
    apply List.filter_eq_self.mpr
    intro call hc
    obtain ⟨j, -, rfl⟩ := List.mem_map.mp hc
    rfl
  rw [Driven.executed, hw, List.filter_append, hnone, List.append_nil, hall, List.map_map]
  exact List.map_id l

theorem Swept.settled {i : ℕ} {s : Sweep} (hs : Swept cp p total h i s)
    (hn : Normalized cp.ringCoverage.ranges) {d : Driven} {tail : List (ℕ × Except String Unit)}
    (hrec : d.recorded = s.recorded) (hworked : d.worked = s.worked ++ tail)
    (htail : ∀ call ∈ tail, call.2.isOk = false)
    (hd : d.checkpoint = (s.flushSlots.setNext i).checkpoint) : Settled cp p total i d := by
  have hcov : s.checkpoint.ringCoverage = { cp.ringCoverage with
      completedSeedIndices := s.checkpoint.ringCoverage.completedSeedIndices } :=
    congrArg RunCheckpoint.ringCoverage hs.checkpoint
  have hcp := hs.checkpoint
  have hnorm : Normalized s.checkpoint.ringCoverage.ranges := by rw [hcov]; exact hn
  have hslots : s.checkpoint.ringCoverage.slots = cp.ringCoverage.slots := by rw [hcov]; rfl
  obtain ⟨hnorm', hbooks, hmarked⟩ := markSlots_spec hnorm s.completedSlots
  have hd' : d.checkpoint = { s.checkpoint with
      nextSeedIndex := i
      ringCoverage := s.checkpoint.ringCoverage.markSlots s.completedSlots } := hd
  have hexec := executed_of_ok d (todoBelow cp p i) tail (by rw [hworked, hs.worked]) htail
  constructor
  case recorded => rw [hrec, hs.recorded]
  case executed => exact hexec
  case next => rw [hd']
  case schema => rw [hd', hcp]
  case campaign => rw [hd', hcp]
  case totalSeeds => rw [hd', hcp]
  case ledger => rw [hd', hbooks.2.2, hcov]
  case completed =>
    intro j
    rw [hd', hbooks.2.1]
    exact hs.completed j
  case normalized => rw [hd']; exact hnorm'
  case slots =>
    intro slot
    rw [hd', hmarked, hs.slots, hslots]

theorem swept_start : Swept cp p total h 0 (.start cp) := by
  constructor <;> simp [Sweep.start, todoBelow]

theorem not_mem_todoBelow (i : ℕ) : i ∉ todoBelow cp p i := by
  rw [todoBelow, mem_filter_range]
  omega

theorem finished_succ (last : ℕ → Option ℕ) (slot i : ℕ) :
    (∃ j < i + 1, last slot = some j) ↔ (∃ j < i, last slot = some j) ∨ last slot = some i := by
  constructor
  · rintro ⟨j, hj, hlast⟩
    rcases Nat.lt_succ_iff_lt_or_eq.mp hj with hj | rfl
    · exact Or.inl ⟨j, hj, hlast⟩
    · exact Or.inr hlast
  · rintro (⟨j, hj, hlast⟩ | hlast)
    · exact ⟨j, by omega, hlast⟩
    · exact ⟨i, by omega, hlast⟩

theorem lastIndexForSlot_ringSlot {pending : List RingRange} {slot i : ℕ}
    (hl : lastIndexForSlot pending total slot = some i) : slot = ringSlot i :=
  (lastIndexForSlot_eq_some.mp hl).2.2.1.symm

theorem mem_finishSlot {pending : List RingRange} (s : Sweep) (slot i : ℕ) :
    slot ∈ (s.finishSlot (lastIndexForSlot pending total) i).completedSlots ↔
      slot ∈ s.completedSlots ∨ lastIndexForSlot pending total slot = some i := by
  unfold Sweep.finishSlot
  split_ifs with hlast
  · simp only [List.mem_append, List.mem_singleton]
    refine or_congr_right ⟨fun hs => hs ▸ hlast, lastIndexForSlot_ringSlot⟩
  · refine (or_iff_left fun hl => hlast ?_).symm
    rwa [← lastIndexForSlot_ringSlot hl]

theorem finishSlot_rest (s : Sweep) (last : ℕ → Option ℕ) (i : ℕ) :
    (s.finishSlot last i).checkpoint = s.checkpoint ∧
      (s.finishSlot last i).recorded = s.recorded ∧
      (s.finishSlot last i).worked = s.worked := by
  unfold Sweep.finishSlot
  split_ifs
  · exact ⟨rfl, rfl, rfl⟩
  · exact ⟨rfl, rfl, rfl⟩

theorem Swept.next {i : ℕ} {s t : Sweep} (hs : Swept cp p total h i s)
    (hc : h.cancelled i = false) (hwork : todo cp p i = true → h.work i = .ok ())
    (hcp : t.checkpoint = { s.checkpoint with
      nextSeedIndex := t.checkpoint.nextSeedIndex
      ringCoverage := { s.checkpoint.ringCoverage with
        completedSeedIndices := if todo cp p i then
          insert i s.checkpoint.ringCoverage.completedSeedIndices
          else s.checkpoint.ringCoverage.completedSeedIndices } })
    (hrec : t.recorded = s.recorded ++ if todo cp p i then [i] else [])
    (hworked : t.worked = s.worked ++ if todo cp p i then [(i, .ok ())] else [])
    (hslots : ∀ slot, slot ∈ t.completedSlots ↔ slot ∈ s.completedSlots ∨
      lastIndexForSlot (cp.ringCoverage.uncoveredWithin p.range) total slot = some i) :
    Swept cp p total h (i + 1) t := by
  have hbelow : todoBelow cp p (i + 1) = todoBelow cp p i ++ if todo cp p i then [i] else [] :=
    filter_range_succ _ _
  constructor
  case checkpoint =>
    rw [hcp, hs.checkpoint]
  case completed =>
    intro j
    rw [hcp, hbelow]
    split_ifs with ht
    · simp only [Finset.mem_insert, List.mem_append, List.mem_singleton, hs.completed]
      tauto
    · rw [List.append_nil, hs.completed]
  case recorded => rw [hrec, hbelow, hs.recorded]
  case worked =>
    rw [hworked, hbelow, hs.worked]
    split_ifs <;> simp
  case slots =>
    intro slot
    rw [hslots, hs.slots, finished_succ]
  case passed =>
    intro j hj
    rcases Nat.lt_succ_iff_lt_or_eq.mp hj with hj | rfl
    · exact hs.passed j hj
    · exact ⟨hc, hwork⟩

def StoppedAt (cp : RunCheckpoint) (p : WorkerPartition) (total : ℕ) (h : Harness) (i : ℕ)
    (d : Driven) : Prop :=
  Settled cp p total i d ∧ ¬ d.isCompleted ∧
    ¬ (h.cancelled i = false ∧ (todo cp p i = true → h.work i = .ok ()))

theorem not_isCompleted_cancel (s : Sweep) (i : ℕ) : ¬ (s.cancel i).isCompleted := by
  rintro ⟨summary, hsum⟩
  simp [Sweep.cancel, Sweep.leave] at hsum

theorem not_isCompleted_fail (s : Sweep) (message : String) : ¬ (s.fail message).isCompleted := by
  rintro ⟨summary, hsum⟩
  simp [Sweep.fail, Sweep.leave] at hsum

theorem isCompleted_complete (s : Sweep) : s.complete.isCompleted := ⟨_, rfl⟩

theorem Swept.sweepSeed {i : ℕ} {s : Sweep} (hs : Swept cp p total h i s)
    (hn : Normalized cp.ringCoverage.ranges) :
    (sweepSeed (cp.ringCoverage.uncoveredWithin p.range)
      (lastIndexForSlot (cp.ringCoverage.uncoveredWithin p.range) total) h i s).All
      (StoppedAt cp p total h i) (Swept cp p total h (i + 1)) := by
  have hdone : s.checkpoint.ringCoverage.isSeedCompleted i = cp.ringCoverage.isSeedCompleted i := by
    have hmem : i ∈ s.checkpoint.ringCoverage.completedSeedIndices ↔
        i ∈ cp.ringCoverage.completedSeedIndices := by
      rw [hs.completed, or_iff_left (not_mem_todoBelow i)]
    simp only [isSeedCompleted, hmem]
  unfold Run.sweepSeed
  by_cases hc : h.cancelled i = true
  · rw [if_pos hc]
    refine ⟨hs.settled hn rfl (List.append_nil _).symm (by simp) rfl, not_isCompleted_cancel _ _, ?_⟩
    rintro ⟨hnc, -⟩
    rw [hnc] at hc
    contradiction
  rw [if_neg hc]
  rw [Bool.not_eq_true] at hc
  by_cases hp : slotPending (cp.ringCoverage.uncoveredWithin p.range) (ringSlot i) = true
  swap
  · rw [Bool.not_eq_true] at hp
    have ht : todo cp p i = false := by simp [todo, hp]
    have hnever : ∀ slot,
        ¬ lastIndexForSlot (cp.ringCoverage.uncoveredWithin p.range) total slot = some i := by
      intro slot hl
      have hpend := (lastIndexForSlot_eq_some.mp hl).1
      rw [lastIndexForSlot_ringSlot hl, hp] at hpend
      contradiction
    simp only [hp, Bool.not_false, if_true, Flow.all_next]
    exact hs.next hc (by simp [ht]) (by simp [ht, Sweep.setNext]) (by simp [ht, Sweep.setNext])
      (by simp [ht, Sweep.setNext]) (by simp [hnever, Sweep.setNext])
  simp only [hp, Bool.not_true, Bool.false_eq_true, if_false]
  by_cases hd : cp.ringCoverage.isSeedCompleted i = true
  · have ht : todo cp p i = false := by simp [todo, hd]
    have hdone' : (s.setNext i).checkpoint.ringCoverage.isSeedCompleted i = true := hdone.trans hd
    rw [if_pos hdone', Flow.all_next]
    obtain ⟨hcp, hrec, hworked⟩ := finishSlot_rest (s.setNext i)
      (lastIndexForSlot (cp.ringCoverage.uncoveredWithin p.range) total) i
    refine hs.next hc (by simp [ht]) ?_ ?_ ?_ fun slot => mem_finishSlot _ _ _
    · rw [ht]
      exact congrArg (fun c : RunCheckpoint => { c with nextSeedIndex := i + 1 }) hcp
    · rw [ht]
      exact hrec.trans (List.append_nil _).symm
    · rw [ht]
      exact hworked.trans (List.append_nil _).symm
  · have ht : todo cp p i = true := by simp [todo, hp, hd]
    have hdone' : ¬ (s.setNext i).checkpoint.ringCoverage.isSeedCompleted i = true := by
      rwa [show (s.setNext i).checkpoint.ringCoverage.isSeedCompleted i = _ from hdone]
    rw [if_neg hdone']
    cases hw : h.work i with
    | error message =>
      refine ⟨hs.settled hn rfl rfl ?_ rfl, not_isCompleted_fail _ _, ?_⟩
      · intro call hcall
        rw [List.mem_singleton.mp hcall]
        rfl
      · rintro ⟨-, hok⟩
        rw [hok ht] at hw
        contradiction
    | ok u =>
      simp only [Flow.all_next]
      refine hs.next hc (fun _ => hw) ?_ ?_ ?_ ?_
      · rw [(finishSlot_rest _ _ _).1]
        simp [ht, Sweep.setNext, Sweep.setCoverage, Sweep.logWork, markSeedCompleted]
      · rw [(finishSlot_rest _ _ _).2.1]
        simp [ht, Sweep.setNext, Sweep.setCoverage, Sweep.logWork]
      · rw [(finishSlot_rest _ _ _).2.2]
        simp [ht, Sweep.setNext, Sweep.setCoverage, Sweep.logWork]
      · intro slot
        exact mem_finishSlot _ _ _

theorem sweep_all (hn : Normalized cp.ringCoverage.ranges) :
    (forRange (Run.sweepSeed (cp.ringCoverage.uncoveredWithin p.range)
      (lastIndexForSlot (cp.ringCoverage.uncoveredWithin p.range) total) h)
      0 total (.start cp)).All
      (fun d => ∃ i < total, (∀ j < i, h.cancelled j = false ∧
        (todo cp p j = true → h.work j = .ok ())) ∧ StoppedAt cp p total h i d)
      (Swept cp p total h total) := by
  have hrule := @forRange_rule _ _ (Run.sweepSeed (cp.ringCoverage.uncoveredWithin p.range)
    (lastIndexForSlot (cp.ringCoverage.uncoveredWithin p.range) total) h) (Swept cp p total h)
    (fun d => ∃ i < total, (∀ j < i, h.cancelled j = false ∧
      (todo cp p j = true → h.work j = .ok ())) ∧ StoppedAt cp p total h i d) total 0 _ swept_start
    (fun i s _ hi hs =>
      (hs.sweepSeed hn).imp (fun d hd => ⟨i, by omega, hs.passed, hd⟩) (fun _ => id))
  rwa [Nat.zero_add] at hrule

structure Reached (cp : RunCheckpoint) (p : WorkerPartition) (total : ℕ) (h : Harness) (k : ℕ)
    (d : Driven) : Prop where
  settled : Settled cp p total k d
  le : k ≤ total
  passes : ∀ j < k, Passes cp p h j
  completed : d.isCompleted ↔ k = total
  stopped : k < total → ¬ Passes cp p h k

theorem todo_eq_true_iff (hn : Normalized cp.ringCoverage.ranges) {i : ℕ} :
    todo cp p i = true ↔ p.ownsSeed i = true ∧ ringSlot i ∉ cp.ringCoverage.slots ∧
      i ∉ cp.ringCoverage.completedSeedIndices := by
  have hpend : slotPending (cp.ringCoverage.uncoveredWithin p.range) (ringSlot i) = true ↔
      p.range.contains (ringSlot i) = true ∧ ringSlot i ∉ cp.ringCoverage.slots :=
    mem_uncoveredWithin hn p.range (ringSlot i)
  rw [todo, Bool.and_eq_true, hpend, Bool.not_eq_true', isSeedCompleted, decide_eq_false_iff_not,
    and_assoc]
  rfl

theorem reached_of_covered (hn : Normalized cp.ringCoverage.ranges)
    (hcov : cp.ringCoverage.uncoveredWithin p.range = []) :
    Reached cp p total h total ((Sweep.start cp).setNext total).complete := by
  have ht : ∀ i, todo cp p i = false := by
    intro i
    simp [todo, hcov, slotPending]
  have hbelow : todoBelow cp p total = [] :=
    List.filter_eq_nil_iff.mpr fun i _ => by simp [ht i]
  have hlast : ∀ slot i, ¬ lastIndexForSlot (cp.ringCoverage.uncoveredWithin p.range) total slot =
      some i := by
    intro slot i hl
    have hpend := (lastIndexForSlot_eq_some.mp hl).1
    rw [hcov] at hpend
    contradiction
  constructor
  case settled =>
    constructor <;> simp [hbelow, hlast, Sweep.complete, Sweep.leave, Sweep.setNext, Sweep.start,
      Driven.executed, hn]
  case le => exact le_refl _
  case passes =>
    intro j _
    refine ⟨Or.inl ?_, fun htj => ?_⟩
    · rw [isRangeCovered, hcov]
      rfl
    · rw [ht j] at htj
      contradiction
  case completed => exact iff_of_true (isCompleted_complete _) rfl
  case stopped => exact fun hlt => absurd hlt (lt_irrefl _)

theorem driveRunPartitioned_error {campaignId : String} {e : RunResumeError}
    (hv : validateResumeCheckpoint cp campaignId total = .error e) :
    driveRunPartitionedFromCheckpoint campaignId cp total p h = ⟨.error e, cp, [], []⟩ := by
  rw [driveRunPartitionedFromCheckpoint, hv]

theorem driveRunPartitioned_reached {campaignId : String} (hn : Normalized cp.ringCoverage.ranges)
    (hv : validateResumeCheckpoint cp campaignId total = .ok ()) :
    ∃ k, Reached cp p total h k (driveRunPartitionedFromCheckpoint campaignId cp total p h) := by
  simp only [driveRunPartitionedFromCheckpoint, hv]
  by_cases hcov : cp.ringCoverage.uncoveredWithin p.range = []
  · refine ⟨total, ?_⟩
    rw [if_pos (List.isEmpty_iff.mpr hcov)]
    exact reached_of_covered hn hcov
  have hne : ¬ (cp.ringCoverage.uncoveredWithin p.range).isEmpty = true :=
    fun hnil => hcov (List.isEmpty_iff.mp hnil)
  rw [if_neg hne]
  have hpass : ∀ j, Passes cp p h j ↔
      h.cancelled j = false ∧ (todo cp p j = true → h.work j = .ok ()) := by
    intro j
    rw [Passes, isRangeCovered, or_iff_right hne]
  have hloop := @sweep_all cp p total h hn
  generalize forRange _ 0 total (Sweep.start cp) = f at hloop ⊢
  cases f with
  | stop d =>
    obtain ⟨i, hi, hbefore, hset, hnot, hstop⟩ := hloop
    refine ⟨i, hset, hi.le, fun j hj => (hpass j).mpr (hbefore j hj), iff_of_false hnot (by omega),
      fun _ => ?_⟩
    rwa [hpass]
  | next s =>
    refine ⟨total, hloop.settled hn rfl (List.append_nil _).symm (by simp) rfl, le_refl _, ?_,
      iff_of_true (isCompleted_complete _) rfl, fun hlt => absurd hlt (lt_irrefl _)⟩
    exact fun j hj => (hpass j).mpr (hloop.passed j hj)

end Sweep

end CrashLab.Run
