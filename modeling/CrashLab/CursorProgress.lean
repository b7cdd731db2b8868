import CrashLab.LeasedDriver

namespace CrashLab.Run

open MachineInts WorkerRing Loops RingCoverage

section Partitioned

variable {cp : RunCheckpoint} {p : WorkerPartition} {total : ℕ} {h : Harness}

/-- From index `i` on the sweep still sees the completed seeds of the checkpoint it started from. -/
def Untouched (cp : RunCheckpoint) (i : ℕ) (s : Sweep) : Prop :=
  ∀ j ≥ i, s.checkpoint.ringCoverage.isSeedCompleted j = cp.ringCoverage.isSeedCompleted j

theorem Untouched.of_completed {i : ℕ} {s t : Sweep} (hs : Untouched cp i s)
    (hsame : ∀ j ≠ i, j ∈ t.checkpoint.ringCoverage.completedSeedIndices ↔
      j ∈ s.checkpoint.ringCoverage.completedSeedIndices) : Untouched cp (i + 1) t := by
  intro j hj
  rw [← hs j (by omega)]
  have hiff := hsame j (by omega)
  simp only [isSeedCompleted, hiff]

theorem sweepSeed_cursor {last : ℕ → Option ℕ} {i : ℕ} {s : Sweep} (hs : Untouched cp i s)
    (hne : cp.ringCoverage.isRangeCovered p.range = false) :
    (sweepSeed (cp.ringCoverage.uncoveredWithin p.range) last h i s).All
      (fun d => ¬ Passes cp p h i ∧ d.checkpoint.nextSeedIndex = i)
      (fun t => Passes cp p h i ∧ Untouched cp (i + 1) t) := by
  have hpass : Passes cp p h i ↔ h.cancelled i = false ∧ (todo cp p i = true → h.work i = .ok ()) := by
    simp [Passes, hne]
  have hdone : (s.setNext i).checkpoint.ringCoverage.isSeedCompleted i =
      cp.ringCoverage.isSeedCompleted i := hs i (le_refl i)
  unfold sweepSeed
  rw [hpass]
  by_cases hc : h.cancelled i = true
  · rw [if_pos hc]
    exact ⟨by simp [hc], rfl⟩
  rw [if_neg hc]
  rw [Bool.not_eq_true] at hc
  by_cases hp : slotPending (cp.ringCoverage.uncoveredWithin p.range) (ringSlot i) = true
  swap
  · rw [if_pos (by simpa using hp)]
    refine ⟨⟨hc, by simp [todo, hp]⟩, hs.of_completed fun j _ => Iff.rfl⟩
  rw [if_neg (by simpa using hp), hdone]
  by_cases hd : cp.ringCoverage.isSeedCompleted i = true
  · rw [if_pos hd]
    refine ⟨⟨hc, by simp [todo, hd]⟩, hs.of_completed fun j _ => ?_⟩
    simp only [Sweep.setNext, (finishSlot_rest _ last i).1]
  have ht : todo cp p i = true := by simp [todo, hp, hd]
  rw [if_neg hd]
  cases hw : h.work i with
  | error message => exact ⟨by simp [ht], rfl⟩
  | ok u =>
    refine ⟨⟨hc, fun _ => rfl⟩, hs.of_completed fun j hj => ?_⟩
    rw [(finishSlot_rest _ last i).1]
    simp [Sweep.setCoverage, Sweep.logWork, Sweep.setNext, markSeedCompleted, hj]

theorem driveRunPartitioned_cursor {campaignId : String}
    (hv : validateResumeCheckpoint cp campaignId total = .ok ()) :
    ∃ k ≤ total, (∀ j < k, Passes cp p h j) ∧ (k < total → ¬ Passes cp p h k) ∧
      (driveRunPartitionedFromCheckpoint campaignId cp total p h).checkpoint.nextSeedIndex = k := by
  simp only [driveRunPartitionedFromCheckpoint, hv]
  by_cases hcov : (cp.ringCoverage.uncoveredWithin p.range).isEmpty = true
  · rw [if_pos hcov]
    refine ⟨total, le_refl _, fun j _ => ⟨Or.inl hcov, ?_⟩, fun hlt => absurd hlt (lt_irrefl _), rfl⟩
    simp [todo, List.isEmpty_iff.mp hcov, slotPending]
  rw [if_neg hcov]
  rw [Bool.not_eq_true] at hcov
  have hloop := forRange_first (Passes cp p h) (Untouched cp)
    (fun i (d : Driven) => d.checkpoint.nextSeedIndex = i) total
    (fun j _ => rfl : Untouched cp 0 (.start cp)) fun i s _ hs =>
      @sweepSeed_cursor cp p h (lastIndexForSlot (cp.ringCoverage.uncoveredWithin p.range) total) i s hs hcov
  generalize forRange _ 0 total (Sweep.start cp) = f at hloop ⊢
  cases f with
  | stop d =>
    obtain ⟨k, hk, hbefore, hstop, hnext⟩ := hloop
    exact ⟨k, hk.le, hbefore, fun _ => hstop, hnext⟩
  | next s => exact ⟨total, le_refl _, hloop.1, fun hlt => absurd hlt (lt_irrefl _), rfl⟩

end Partitioned

section Leased

variable (cp : RunCheckpoint) (p : WorkerPartition) (h : Harness) (nowMs leaseTtlMs : ℕ)

def LeasedPasses (j : ℕ) : Prop :=
  h.cancelled j = false ∧
    (leasedTodo cp p j = true → h.work j = .ok () ∧ nowMs < saturatingAdd nowMs leaseTtlMs)

/-- Seed `i` is recorded: the lease is granted and nothing up to `i` stops the worker. -/
def Records (total i : ℕ) : Prop :=
  (cp.ringCoverage.leaseLedger.claim p.range p.workerIndex nowMs leaseTtlMs).1.isOk = true ∧
    i < total ∧ leasedTodo cp p i = true ∧ ∀ j ≤ i, LeasedPasses cp p h nowMs leaseTtlMs j

def CursorAt (k next : ℕ) : Prop :=
  ((∀ j < k, leasedTodo cp p j = false) ∧ next = cp.nextSeedIndex) ∨
    ∃ i < k, leasedTodo cp p i = true ∧ next = i + 1 ∧ ∀ j < k, leasedTodo cp p j = true → j ≤ i

structure LeasedCursor (granted : LeaseLedger) (i : ℕ) (s : Sweep) : Prop where
  ledger : s.checkpoint.ringCoverage.leaseLedger = granted
  untouched : Untouched cp i s
  next : CursorAt cp p i s.checkpoint.nextSeedIndex

variable {cp p h nowMs leaseTtlMs} {total : ℕ}

theorem CursorAt.skip {i next : ℕ} (hc : CursorAt cp p i next) (ht : leasedTodo cp p i = false) :
    CursorAt cp p (i + 1) next := by
  have hlt : ∀ j < i + 1, leasedTodo cp p j = true → j < i := by
    intro j hj htodo
    rcases Nat.lt_succ_iff_lt_or_eq.mp hj with hj | rfl
    · exact hj
    · rw [ht] at htodo
      contradiction
  rcases hc with ⟨hnone, hnext⟩ | ⟨last, hlast, htodo, hnext, hmax⟩
  · refine Or.inl ⟨fun j hj => ?_, hnext⟩
    by_contra htrue
    rw [Bool.not_eq_false] at htrue
    have := hnone j (hlt j hj htrue)
    rw [this] at htrue
    contradiction
  · exact Or.inr ⟨last, by omega, htodo, hnext, fun j hj htrue => hmax j (hlt j hj htrue) htrue⟩

theorem CursorAt.kept_iff {k next : ℕ} (hc : CursorAt cp p k next) : cp.nextSeedIndex ≤ next ↔
    ((∃ i < k, leasedTodo cp p i = true) →
      ∃ i < k, leasedTodo cp p i = true ∧ cp.nextSeedIndex ≤ i + 1) := by
  rcases hc with ⟨hnone, rfl⟩ | ⟨last, hlast, htodo, rfl, hmax⟩
  · refine iff_of_true (le_refl _) ?_
    rintro ⟨i, hi, htrue⟩
    rw [hnone i hi] at htrue
    contradiction
  · constructor
    · intro hle _
      exact ⟨last, hlast, htodo, hle⟩
    · intro himp
      obtain ⟨i, hi, htrue, hle⟩ := himp ⟨last, hlast, htodo⟩
      have := hmax i hi htrue
      omega

theorem leasedSeed_cursor {ledger : LeaseLedger} {lease : PartitionLease}
    (hlease : lease.expiresAtMs = saturatingAdd nowMs leaseTtlMs) (hrange : lease.range = p.range)
    (hnew : ∀ old ∈ ledger.leases, old.token ≠ lease.token) (htotal : total ≤ usizeMax) {i : ℕ}
    {s : Sweep} (hi : i < total) (hs : LeasedCursor cp p (ledger.grant lease) i s) :
    (leasedSeed p lease.token nowMs h i s).All
      (fun d => ¬ LeasedPasses cp p h nowMs leaseTtlMs i ∧
        CursorAt cp p i d.checkpoint.nextSeedIndex)
      (fun t => LeasedPasses cp p h nowMs leaseTtlMs i ∧
        LeasedCursor cp p (ledger.grant lease) (i + 1) t) := by
  unfold leasedSeed
  by_cases hc : h.cancelled i = true
  · rw [if_pos hc]
    exact ⟨by simp [LeasedPasses, hc], hs.next⟩
  have hskip : (!p.ownsSeed i || s.checkpoint.ringCoverage.isSeedCompleted i) = !leasedTodo cp p i := by
    rw [hs.untouched i (le_refl i), leasedTodo, Bool.not_and, Bool.not_not]
  rw [if_neg hc, hskip]
  rw [Bool.not_eq_true] at hc
  by_cases ht : leasedTodo cp p i = true
  swap
  · rw [if_pos (by simpa using ht)]
    rw [Bool.not_eq_true] at ht
    exact ⟨⟨hc, by simp [ht]⟩, hs.ledger, hs.untouched.of_completed fun j _ => Iff.rfl, hs.next.skip ht⟩
  rw [if_neg (by simpa using ht)]
  cases hw : h.work i with
  | error message => exact ⟨by simp [LeasedPasses, ht, hw], hs.next⟩
  | ok u =>
    have hslot : lease.range.contains (ringSlot i) = true := by
      rw [leasedTodo, Bool.and_eq_true] at ht
      exact hrange ▸ ht.1
    have hwrite := LeaseLedger.validateWrite_grant hnew hslot nowMs
    have hledger : (s.logWork i (.ok ())).checkpoint.ringCoverage.leaseLedger = ledger.grant lease :=
      hs.ledger
    simp only [recordSeedCompleted, hledger, hwrite, hlease]
    by_cases hexp : saturatingAdd nowMs leaseTtlMs ≤ nowMs
    · simp only [if_pos hexp]
      refine ⟨?_, hs.next⟩
      rintro ⟨-, hlive⟩
      exact absurd (hlive ht).2 (not_lt.mpr hexp)
    · simp only [if_neg hexp]
      refine ⟨⟨hc, fun _ => ⟨hw, not_le.mp hexp⟩⟩, rfl, hs.untouched.of_completed fun j hj => ?_,
        Or.inr ⟨i, Nat.lt_succ_self i, ht, ?_, fun j hj _ => by omega⟩⟩
      · simp [Sweep.setNext, Sweep.setCoverage, Sweep.logWork, markSeedCompleted, hj]
      · simp only [Sweep.setNext]
        omega

theorem driveLeased_cursor {campaignId : String}
    (hv : validateResumeCheckpoint cp campaignId total = .ok ()) (htotal : total ≤ usizeMax) :
    ∃ k, (∀ i, Records cp p h nowMs leaseTtlMs total i ↔ i < k ∧ leasedTodo cp p i = true) ∧
      CursorAt cp p k (driveRunPartitionedWithLeaseFromCheckpoint campaignId cp total p nowMs
        leaseTtlMs h).checkpoint.nextSeedIndex := by
  have hnone : ∀ next, next = cp.nextSeedIndex → CursorAt cp p 0 next :=
    fun next hnext => Or.inl ⟨fun j hj => absurd hj (Nat.not_lt_zero j), hnext⟩
  simp only [driveRunPartitionedWithLeaseFromCheckpoint, hv]
  by_cases hempty : p.range.isEmpty = true
  · rw [if_pos hempty]
    refine ⟨0, fun i => ?_, hnone _ rfl⟩
    simp [Records, LeaseLedger.claim, hempty, Except.isOk, Except.toBool]
  rw [if_neg hempty]
  rcases LeaseLedger.claim_cases cp.ringCoverage.leaseLedger p.range p.workerIndex nowMs leaseTtlMs
    with ⟨e, heq⟩ | ⟨e, heq⟩ | ⟨hr, hsize, hfree, heq⟩
  · simp only [heq]
    refine ⟨0, fun i => ?_, hnone _ rfl⟩
    simp [Records, heq, Except.isOk, Except.toBool]
  · simp only [heq]
    refine ⟨0, fun i => ?_, hnone _ rfl⟩
    simp [Records, heq, Except.isOk, Except.toBool]
  have hrecords : ∀ i, Records cp p h nowMs leaseTtlMs total i ↔
      i < total ∧ leasedTodo cp p i = true ∧ ∀ j ≤ i, LeasedPasses cp p h nowMs leaseTtlMs j := by
    intro i
    simp [Records, heq, Except.isOk, Except.toBool]
  simp only [heq]
  generalize hlease : (⟨p.workerIndex, cp.ringCoverage.leaseLedger.nextGeneration + 1, p.range,
    saturatingAdd nowMs leaseTtlMs⟩ : PartitionLease) = lease
  have hnew : ∀ old ∈ (cp.ringCoverage.leaseLedger.reclaim p.range nowMs).leases,
      old.token ≠ lease.token := by
    intro old hold htoken
    have hsame : old.range = p.range := by
      rw [← hlease] at htoken
      exact congrArg LeaseToken.range htoken
    have hapart := hfree old hold
    rw [PartitionLease.overlaps, hsame, ← Bool.not_eq_true, RingRange.intersection_isSome] at hapart
    rw [RingRange.isEmpty_iff] at hempty
    apply hapart
    exact ⟨p.range.start, by simp; omega, by simp; omega⟩
  have htoken : (⟨p.workerIndex, cp.ringCoverage.leaseLedger.nextGeneration + 1, p.range⟩ :
    LeaseToken) = lease.token := by rw [← hlease]; rfl
  rw [htoken]
  have hloop := forRange_first (LeasedPasses cp p h nowMs leaseTtlMs)
    (LeasedCursor cp p ((cp.ringCoverage.leaseLedger.reclaim p.range nowMs).grant lease))
    (fun i (d : Driven) => CursorAt cp p i d.checkpoint.nextSeedIndex) total
    (⟨rfl, fun j _ => rfl, hnone _ rfl⟩ : LeasedCursor cp p _ 0 ((Sweep.start cp).setCoverage
      { cp.ringCoverage with
        leaseLedger := (cp.ringCoverage.leaseLedger.reclaim p.range nowMs).grant lease }))
    fun i s hi hs => leasedSeed_cursor (by rw [← hlease]) (by rw [← hlease]) hnew htotal hi hs
  generalize forRange _ 0 total _ = f at hloop ⊢
  cases f with
  | stop d =>
    obtain ⟨k, hk, hbefore, hstop, hnext⟩ := hloop
    refine ⟨k, fun i => ?_, hnext⟩
    rw [hrecords]
    constructor
    · rintro ⟨-, ht, hall⟩
      refine ⟨?_, ht⟩
      by_contra hge
      exact hstop (hall k (by omega))
    · rintro ⟨hik, ht⟩
      exact ⟨by omega, ht, fun j hj => hbefore j (by omega)⟩
  | next s =>
    refine ⟨total, fun i => ?_, hloop.2.next⟩
    rw [hrecords]
    constructor
    · rintro ⟨hi, ht, -⟩
      exact ⟨hi, ht⟩
    · rintro ⟨hi, ht⟩
      exact ⟨hi, ht, fun j hj => hloop.1 j (by omega)⟩

end Leased

def CursorKept (cp : RunCheckpoint) (d : Driven) : Prop :=
  cp.nextSeedIndex ≤ d.checkpoint.nextSeedIndex

instance (cp : RunCheckpoint) (d : Driven) : Decidable (CursorKept cp d) :=
  inferInstanceAs (Decidable (_ ≤ _))

theorem cursor_kept_iff (cp : RunCheckpoint) (campaignId : String) (total : ℕ) (p : WorkerPartition)
    (h : Harness) (nowMs leaseTtlMs : ℕ)
    (hv : validateResumeCheckpoint cp campaignId total = .ok ()) :
    (CursorKept cp (driveRunPartitionedFromCheckpoint campaignId cp total p h) ↔
      ∀ j < cp.nextSeedIndex, Passes cp p h j) ∧
    (CursorKept cp
        (driveRunPartitionedWithLeaseFromCheckpoint campaignId cp total p nowMs leaseTtlMs h) ↔
      ((∃ i, Records cp p h nowMs leaseTtlMs total i) →
        ∃ i, Records cp p h nowMs leaseTtlMs total i ∧ cp.nextSeedIndex ≤ i + 1)) := by
  have hsize : total ≤ usizeMax ∧ cp.nextSeedIndex ≤ total := by
    unfold validateResumeCheckpoint at hv
    split_ifs at hv with hlarge
    cases hrun : cp.validateRun campaignId total with
    | error e => simp [hrun] at hv
    | ok u => exact ⟨not_lt.mp hlarge, ((cp.validateRun_ok_iff campaignId total).mp hrun).2.2.2⟩
  constructor
  · obtain ⟨k, hk, hbefore, hstop, hnext⟩ := driveRunPartitioned_cursor (p := p) (h := h) hv
    rw [CursorKept, hnext]
    constructor
    · intro hle j hj
      exact hbefore j (by omega)
    · intro hall
      by_contra hlt
      exact hstop (by omega) (hall k (by omega))
  · obtain ⟨k, hrecords, hcursor⟩ := @driveLeased_cursor cp p h nowMs leaseTtlMs total campaignId hv hsize.1
    rw [CursorKept, hcursor.kept_iff]
    simp only [hrecords, and_assoc]

def halfway : RunCheckpoint := ⟨3, "campaign", 2, 4, .new, 1, 0⟩

def onlyWorker : WorkerPartition := ⟨0, 1, _, ringRangeFor_of_lt (by decide)⟩

theorem undisturbed_calls_keep_cursor :
    CursorKept halfway (driveRunPartitionedFromCheckpoint "campaign" halfway 4 onlyWorker
      ⟨fun _ => false, fun _ => .ok ()⟩) ∧
    CursorKept halfway (driveRunPartitionedWithLeaseFromCheckpoint "campaign" halfway 4 onlyWorker 0 10
      ⟨fun _ => false, fun _ => .ok ()⟩) := by
  have hiff := cursor_kept_iff halfway "campaign" 4 onlyWorker ⟨fun _ => false, fun _ => .ok ()⟩ 0 10 rfl
  constructor
  · apply hiff.1.mpr
    intro j _
    exact ⟨Or.inr rfl, fun _ => rfl⟩
  · apply hiff.2.mpr
    intro _
    refine ⟨3, ⟨rfl, by decide, by decide +kernel, fun j _ => ⟨rfl, fun _ => ⟨rfl, by decide⟩⟩⟩, by decide⟩

theorem early_cancel_moves_cursor_back :
    validateResumeCheckpoint halfway "campaign" 4 = .ok () ∧
    ¬ CursorKept halfway (driveRunPartitionedFromCheckpoint "campaign" halfway 4 onlyWorker
      ⟨fun _ => true, fun _ => .ok ()⟩) ∧
    ¬ CursorKept halfway (driveRunPartitionedWithLeaseFromCheckpoint "campaign" halfway 4 onlyWorker 0 10
      ⟨fun i => i == 1, fun _ => .ok ()⟩) :=
  ⟨rfl, by decide +kernel, by decide +kernel⟩

end CrashLab.Run
