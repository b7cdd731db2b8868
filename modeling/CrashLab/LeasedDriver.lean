import CrashLab.PartitionedDriver
import CrashLab.RunHistory

namespace CrashLab.WorkerRing.LeaseLedger

open MachineInts Sorting

theorem claim_error_of_live {ledger : LeaseLedger} {range : RingRange} {workerId nowMs ttlMs : ℕ}
    {lease : PartitionLease} (hmem : lease ∈ ledger.leases) (hover : lease.overlaps range = true)
    (hlive : nowMs < lease.expiresAtMs) : ∃ e, (ledger.claim range workerId nowMs ttlMs).1 = .error e := by
  rcases claim_cases ledger range workerId nowMs ttlMs with ⟨e, heq⟩ | ⟨e, heq⟩ | ⟨-, -, hfree, -⟩
  · exact ⟨e, by rw [heq]⟩
  · exact ⟨e, by rw [heq]⟩
  · have hkept : lease ∈ (ledger.reclaim range nowMs).leases :=
      List.mem_filter.mpr ⟨hmem, by simp [hlive]⟩
    rw [hfree lease hkept] at hover
    contradiction

theorem WellFormed.token_ne {ledger : LeaseLedger} (hwf : ledger.WellFormed) {lease old : PartitionLease}
    (hg : ledger.nextGeneration < lease.generation) (hold : old ∈ ledger.leases) :
    old.token ≠ lease.token := by
  intro htoken
  have hle := hwf.issued _ (token_mem hold)
  rw [htoken] at hle
  exact absurd hle (not_le.mpr hg)

theorem validateWrite_grant {ledger : LeaseLedger} {lease : PartitionLease}
    (hnew : ∀ old ∈ ledger.leases, old.token ≠ lease.token) {slot : ℕ}
    (hslot : lease.range.contains slot = true) (nowMs : ℕ) :
    (ledger.grant lease).validateWrite lease.token slot nowMs =
      if lease.expiresAtMs ≤ nowMs then
        (.error (.expired lease.generation), (ledger.grant lease).countZombie)
      else (.ok (), ledger.grant lease) := by
  have hfind : (ledger.grant lease).leases.find? (·.matches lease.token) = some lease := by
    have hin : lease ∈ (ledger.grant lease).leases := by simp [grant, mem_sortByKey]
    cases hf : (ledger.grant lease).leases.find? (·.matches lease.token) with
    | none => exact absurd (List.find?_eq_none.mp hf lease hin) (by simp)
    | some found =>
      have htoken := (PartitionLease.matches_iff _ _).mp (List.find?_some hf)
      have hfound : found ∈ ledger.leases ∨ found = lease := by
        have := List.mem_of_find?_eq_some hf
        simpa [grant, mem_sortByKey] using this
      rcases hfound with hold | rfl
      · exact absurd htoken (hnew found hold)
      · rfl
  have hcontains : lease.token.range.contains slot = true := hslot
  simp only [validateWrite, hcontains, Bool.not_true, Bool.false_eq_true, if_false, hfind]
  rfl

end CrashLab.WorkerRing.LeaseLedger

namespace CrashLab.Run

open MachineInts WorkerRing Loops RingCoverage

section Leased

variable (cp : RunCheckpoint) (p : WorkerPartition) (total : ℕ) (h : Harness)

def leasedTodo (i : ℕ) : Bool := p.ownsSeed i && !cp.ringCoverage.isSeedCompleted i

def leasedTodoBelow (k : ℕ) : List ℕ := (List.range k).filter (leasedTodo cp p)

structure LeasedSettled (live : Prop) (k : ℕ) (d : Driven) : Prop where
  recorded : d.recorded = leasedTodoBelow cp p k
  executed : d.executed = leasedTodoBelow cp p k ∨
    (¬ live ∧ ∃ i, d.executed = leasedTodoBelow cp p k ++ [i])
  schema : d.checkpoint.schema = cp.schema
  campaign : d.checkpoint.campaignId = cp.campaignId
  totalSeeds : d.checkpoint.totalSeeds = cp.totalSeeds
  next : d.checkpoint.nextSeedIndex ≤ max cp.nextSeedIndex k
  ranges : d.checkpoint.ringCoverage.ranges = cp.ringCoverage.ranges
  completed : ∀ i, i ∈ d.checkpoint.ringCoverage.completedSeedIndices ↔
    i ∈ cp.ringCoverage.completedSeedIndices ∨ i ∈ leasedTodoBelow cp p k
  ledger : d.checkpoint.ringCoverage.leaseLedger.WellFormed
  le : k ≤ total
  finished : d.isCompleted → leasedTodoBelow cp p k = leasedTodoBelow cp p total

structure LeasedSwept (ledger : LeaseLedger) (i : ℕ) (s : Sweep) : Prop where
  checkpoint : s.checkpoint = { cp with
    nextSeedIndex := s.checkpoint.nextSeedIndex
    ringCoverage := { cp.ringCoverage with
      completedSeedIndices := s.checkpoint.ringCoverage.completedSeedIndices
      leaseLedger := ledger } }
  next : s.checkpoint.nextSeedIndex ≤ max cp.nextSeedIndex i
  completed : ∀ j, j ∈ s.checkpoint.ringCoverage.completedSeedIndices ↔
    j ∈ cp.ringCoverage.completedSeedIndices ∨ j ∈ leasedTodoBelow cp p i
  recorded : s.recorded = leasedTodoBelow cp p i
  worked : s.worked = (leasedTodoBelow cp p i).map fun j => (j, .ok ())

variable {cp p total h}

theorem leasedTodoBelow_succ (i : ℕ) : leasedTodoBelow cp p (i + 1) =
    leasedTodoBelow cp p i ++ if leasedTodo cp p i then [i] else [] := filter_range_succ _ _

theorem LeasedSwept.settled {ledger : LeaseLedger} {live : Prop} {i : ℕ} {s : Sweep}
    (hs : LeasedSwept cp p ledger i s) (hi : i ≤ total) {d : Driven}
    (hrec : d.recorded = s.recorded)
    (hexec : d.executed = leasedTodoBelow cp p i ∨
      (¬ live ∧ ∃ j, d.executed = leasedTodoBelow cp p i ++ [j]))
    (hcp : d.checkpoint = { s.checkpoint with
      ringCoverage := { s.checkpoint.ringCoverage with
        leaseLedger := d.checkpoint.ringCoverage.leaseLedger } })
    (hledger : d.checkpoint.ringCoverage.leaseLedger.WellFormed)
    (hfin : d.isCompleted → i = total) : LeasedSettled cp p total live i d := by
  constructor
  case recorded => rw [hrec, hs.recorded]
  case executed => exact hexec
  case schema => rw [hcp, hs.checkpoint]
  case campaign => rw [hcp, hs.checkpoint]
  case totalSeeds => rw [hcp, hs.checkpoint]
  case next => rw [hcp]; exact hs.next
  case ranges => rw [hcp, hs.checkpoint]
  case completed =>
    intro j
    rw [hcp]
    exact hs.completed j
  case ledger => exact hledger
  case le => exact hi
  case finished =>
    intro hd
    rw [hfin hd]

theorem leasedSwept_start {ledger : LeaseLedger} : LeasedSwept cp p ledger 0
    ((Sweep.start cp).setCoverage { cp.ringCoverage with leaseLedger := ledger }) := by
  constructor <;> simp [Sweep.start, Sweep.setCoverage, leasedTodoBelow]

theorem executed_of_worked {s : Sweep} {i : ℕ} {ledger : LeaseLedger}
    (hs : LeasedSwept cp p ledger i s) {d : Driven} {tail : List (ℕ × Except String Unit)}
    (hworked : d.worked = s.worked ++ tail) (htail : ∀ call ∈ tail, call.2.isOk = false) :
    d.executed = leasedTodoBelow cp p i :=
  executed_of_ok d _ tail (by rw [hworked, hs.worked]) htail

theorem LeasedSwept.leasedSeed {ledger : LeaseLedger} {lease : PartitionLease} {nowMs i : ℕ}
    {s : Sweep} (hs : LeasedSwept cp p (ledger.grant lease) i s) (hwf : ledger.WellFormed)
    (hwf' : (ledger.grant lease).WellFormed) (hg : ledger.nextGeneration < lease.generation)
    (hrange : lease.range = p.range) (hi : i < total) :
    (leasedSeed p lease.token nowMs h i s).All
      (fun d => ∃ k, LeasedSettled cp p total (nowMs < lease.expiresAtMs) k d)
      (LeasedSwept cp p (ledger.grant lease) (i + 1)) := by
  have hledger : s.checkpoint.ringCoverage.leaseLedger = ledger.grant lease := by
    rw [hs.checkpoint]
  have hdone : s.checkpoint.ringCoverage.isSeedCompleted i = cp.ringCoverage.isSeedCompleted i := by
    have hmem : i ∈ s.checkpoint.ringCoverage.completedSeedIndices ↔
        i ∈ cp.ringCoverage.completedSeedIndices := by
      rw [hs.completed, or_iff_left]
      rw [leasedTodoBelow, mem_filter_range]
      omega
    simp only [isSeedCompleted, hmem]
  have hwfs : s.checkpoint.ringCoverage.leaseLedger.WellFormed := hledger ▸ hwf'
  unfold Run.leasedSeed
  by_cases hc : h.cancelled i = true
  · rw [if_pos hc]
    refine ⟨i, hs.settled hi.le rfl (Or.inl (executed_of_worked hs (List.append_nil _).symm (by simp)))
      rfl hwfs fun hd => absurd hd (not_isCompleted_cancel _ _)⟩
  have hskip : (!p.ownsSeed i || s.checkpoint.ringCoverage.isSeedCompleted i) =
      !leasedTodo cp p i := by
    rw [hdone, leasedTodo, Bool.not_and, Bool.not_not]
  rw [if_neg hc, hskip]
  by_cases ht : leasedTodo cp p i = true
  swap
  · have hsame : leasedTodoBelow cp p (i + 1) = leasedTodoBelow cp p i := by
      rw [leasedTodoBelow_succ, if_neg ht, List.append_nil]
    rw [if_pos (by simpa using ht)]
    exact ⟨hs.checkpoint, hs.next.trans (by omega), hsame ▸ hs.completed, hsame ▸ hs.recorded,
      hsame ▸ hs.worked⟩
  have hown : p.ownsSeed i = true := by
    rw [leasedTodo, Bool.and_eq_true] at ht
    exact ht.1
  have hmore : leasedTodoBelow cp p (i + 1) = leasedTodoBelow cp p i ++ [i] := by
    rw [leasedTodoBelow_succ, if_pos ht]
  rw [if_neg (by simpa using ht)]
  cases hw : h.work i with
  | error message =>
    refine ⟨i, hs.settled hi.le rfl (Or.inl (executed_of_worked hs rfl ?_)) rfl hwfs
      fun hd => absurd hd (not_isCompleted_fail _ _)⟩
    intro call hcall
    rw [List.mem_singleton.mp hcall]
    rfl
  | ok u =>
    have hslot : lease.range.contains (ringSlot i) = true := hrange ▸ hown
    have hwrite := LeaseLedger.validateWrite_grant
      (fun old hold => hwf.token_ne hg hold) hslot nowMs
    have hlogged : (s.logWork i (.ok ())).checkpoint = s.checkpoint := rfl
    simp only [recordSeedCompleted, hlogged, hledger, hwrite]
    by_cases hexp : lease.expiresAtMs ≤ nowMs
    · simp only [if_pos hexp]
      refine ⟨i, hs.settled hi.le rfl (Or.inr ⟨not_lt.mpr hexp, i, ?_⟩) rfl ?_ ?_⟩
      · simp [Driven.executed, Sweep.leave, Sweep.setCoverage, Sweep.logWork, hs.worked,
          Except.isOk, Except.toBool, List.filter_map, Function.comp_def]
      · exact hwf'.of_sublist (List.Sublist.refl _) rfl
      · rintro ⟨summary, hsum⟩
        cases hsum
    · simp only [if_neg hexp, Flow.all_next]
      constructor
      case checkpoint =>
        simp [Sweep.setNext, Sweep.setCoverage, markSeedCompleted, hlogged, ← hledger]
        rw [hs.checkpoint]
        simp
      case next =>
        simp only [Sweep.setNext]
        omega
      case completed =>
        intro j
        simp only [Sweep.setNext, Sweep.setCoverage, markSeedCompleted, Finset.mem_insert, hlogged,
          hs.completed, hmore, List.mem_append, List.mem_singleton]
        tauto
      case recorded => rw [hmore, ← hs.recorded]; rfl
      case worked =>
        rw [hmore, List.map_append, ← hs.worked]
        rfl

theorem leasedTodoBelow_of_empty (hempty : p.range.isEmpty = true) (k : ℕ) :
    leasedTodoBelow cp p k = [] := by
  rw [RingRange.isEmpty_iff] at hempty
  apply List.filter_eq_nil_iff.mpr
  intro i _ hin
  have hown : p.ownsSeed i = true := by
    rw [leasedTodo, Bool.and_eq_true] at hin
    exact hin.1
  rw [WorkerPartition.ownsSeed_iff] at hown
  omega

theorem driveLeased_error {campaignId : String} {nowMs leaseTtlMs : ℕ} {e : RunResumeError}
    (hv : validateResumeCheckpoint cp campaignId total = .error e) :
    driveRunPartitionedWithLeaseFromCheckpoint campaignId cp total p nowMs leaseTtlMs h =
      ⟨.error e, cp, [], []⟩ := by
  rw [driveRunPartitionedWithLeaseFromCheckpoint, hv]

theorem leasedSettled_of_refused {live : Prop} {ledger : LeaseLedger} (hwf : ledger.WellFormed)
    (e : RunResumeError) : LeasedSettled cp p total live 0
      (((Sweep.start cp).setCoverage { cp.ringCoverage with leaseLedger := ledger }).leave
        (.error e)) := by
  refine leasedSwept_start.settled (Nat.zero_le _) rfl (Or.inl rfl) rfl hwf ?_
  rintro ⟨summary, hsum⟩
  cases hsum

theorem driveLeased_settled {campaignId : String} {nowMs leaseTtlMs : ℕ}
    (hwf : cp.ringCoverage.leaseLedger.WellFormed)
    (hv : validateResumeCheckpoint cp campaignId total = .ok ()) :
    ∃ k, LeasedSettled cp p total (nowMs < saturatingAdd nowMs leaseTtlMs) k
      (driveRunPartitionedWithLeaseFromCheckpoint campaignId cp total p nowMs leaseTtlMs h) := by
  simp only [driveRunPartitionedWithLeaseFromCheckpoint, hv]
  by_cases hempty : p.range.isEmpty = true
  · have hnone : ∀ k, leasedTodoBelow cp p k = [] := leasedTodoBelow_of_empty hempty
    rw [if_pos hempty]
    refine ⟨0, ?_⟩
    constructor <;> simp [hnone, Sweep.complete, Sweep.leave, Sweep.start, Driven.executed, hwf]
  rw [if_neg hempty]
  rcases LeaseLedger.claim_cases cp.ringCoverage.leaseLedger p.range p.workerIndex nowMs leaseTtlMs
    with ⟨e, heq⟩ | ⟨e, heq⟩ | ⟨hr, hsize, hfree, heq⟩
  · simp only [heq]
    exact ⟨0, leasedSettled_of_refused hwf _⟩
  · simp only [heq]
    exact ⟨0, leasedSettled_of_refused (hwf.reclaim _ _) _⟩
  · simp only [heq]
    generalize hlease : (⟨p.workerIndex, cp.ringCoverage.leaseLedger.nextGeneration + 1, p.range,
      saturatingAdd nowMs leaseTtlMs⟩ : PartitionLease) = lease
    have hwf' : ((cp.ringCoverage.leaseLedger.reclaim p.range nowMs).grant lease).WellFormed :=
      (hwf.reclaim p.range nowMs).grant (by rwa [← hlease]) (by rwa [← hlease])
        (by rwa [← hlease]) (by rw [← hlease]; rfl)
    have hloop := @forRange_rule _ _ (leasedSeed p lease.token nowMs h)
      (LeasedSwept cp p ((cp.ringCoverage.leaseLedger.reclaim p.range nowMs).grant lease))
      (fun d => ∃ k, LeasedSettled cp p total (nowMs < lease.expiresAtMs) k d) total 0 _
      leasedSwept_start (fun i s _ hi hs => hs.leasedSeed (hwf.reclaim p.range nowMs) hwf'
        (by rw [← hlease]; exact Nat.lt_succ_self _) (by rw [← hlease]) (by omega))
    have hlive : saturatingAdd nowMs leaseTtlMs = lease.expiresAtMs := by rw [← hlease]
    have htoken : (⟨p.workerIndex, cp.ringCoverage.leaseLedger.nextGeneration + 1, p.range⟩ :
      LeaseToken) = lease.token := by rw [← hlease]; rfl
    rw [hlive, htoken]
    refine hloop.orElse fun s hs => ⟨total, ?_⟩
    rw [Nat.zero_add] at hs
    refine hs.settled (le_refl _) rfl (Or.inl (executed_of_worked hs (List.append_nil _).symm (by simp)))
      rfl ?_ fun _ => rfl
    rw [show s.complete.checkpoint = s.checkpoint from rfl, hs.checkpoint]
    exact hwf'

theorem driveLeased_blocked {campaignId : String} {nowMs leaseTtlMs : ℕ} {lease : PartitionLease}
    (hmem : lease ∈ cp.ringCoverage.leaseLedger.leases) (hover : lease.overlaps p.range = true)
    (hlive : nowMs < lease.expiresAtMs) :
    let d := driveRunPartitionedWithLeaseFromCheckpoint campaignId cp total p nowMs leaseTtlMs h
    d.worked = [] ∧ d.checkpoint.ringCoverage.completedSeedIndices =
      cp.ringCoverage.completedSeedIndices := by
  intro d
  cases hv : validateResumeCheckpoint cp campaignId total with
  | error e =>
    have hd : d = ⟨.error e, cp, [], []⟩ := driveLeased_error hv
    rw [hd]
    exact ⟨rfl, rfl⟩
  | ok u =>
    have hnonempty : ¬ p.range.isEmpty = true := by
      intro hempty
      rw [RingRange.isEmpty_iff] at hempty
      rw [PartitionLease.overlaps, RingRange.intersection_isSome] at hover
      obtain ⟨slot, -, hin⟩ := hover
      rw [RingRange.contains_iff] at hin
      omega
    have hclaim : ∃ e, (cp.ringCoverage.leaseLedger.claim p.range p.workerIndex nowMs
        leaseTtlMs).1 = .error e := LeaseLedger.claim_error_of_live hmem hover hlive
    obtain ⟨e, he⟩ := hclaim
    have hd : d = ((Sweep.start cp).setCoverage { cp.ringCoverage with
        leaseLedger := (cp.ringCoverage.leaseLedger.claim p.range p.workerIndex nowMs leaseTtlMs).2
        }).leave (.error (.lease e)) := by
      simp only [d, driveRunPartitionedWithLeaseFromCheckpoint, hv, if_neg hnonempty, he]
    rw [hd]
    exact ⟨rfl, rfl⟩

end Leased

end CrashLab.Run

namespace CrashLab.Run

open MachineInts WorkerRing RingCoverage Histories Batches

structure LeasedCall where
  campaignId : String
  totalSeeds : ℕ
  partition : WorkerPartition
  nowMs : ℕ
  leaseTtlMs : ℕ
  harness : Harness

def LeasedCall.drive (cp : RunCheckpoint) (c : LeasedCall) : Driven :=
  driveRunPartitionedWithLeaseFromCheckpoint c.campaignId cp c.totalSeeds c.partition c.nowMs
    c.leaseTtlMs c.harness

def LeasedCall.Live (c : LeasedCall) : Prop := c.nowMs < saturatingAdd c.nowMs c.leaseTtlMs

def LeasedCall.Accounted (c : LeasedCall) (d : Driven) : Prop :=
  d.recorded.Sublist d.executed ∧ (c.Live → d.executed = d.recorded)

theorem LeasedCall.accounted {cp : RunCheckpoint} (hwf : cp.ringCoverage.leaseLedger.WellFormed)
    (c : LeasedCall) : c.Accounted (LeasedCall.drive cp c) := by
  unfold LeasedCall.drive
  cases hv : validateResumeCheckpoint cp c.campaignId c.totalSeeds with
  | error e =>
    rw [driveLeased_error hv]
    exact ⟨List.Sublist.refl _, fun _ => rfl⟩
  | ok u =>
    obtain ⟨k, hs⟩ := driveLeased_settled (p := c.partition) (h := c.harness) hwf hv
    rw [LeasedCall.Accounted, hs.recorded]
    rcases hs.executed with hexec | ⟨hdead, i, hexec⟩
    · rw [hexec]
      exact ⟨List.Sublist.refl _, fun _ => rfl⟩
    · rw [hexec]
      exact ⟨List.sublist_append_left _ _, fun hlive => absurd hlive hdead⟩

theorem LeasedCall.careful : Careful LeasedCall.partition LeasedCall.drive := by
  intro campaignId total done cp c hk
  unfold LeasedCall.drive
  cases hv : validateResumeCheckpoint cp c.campaignId c.totalSeeds with
  | error e =>
    rw [driveLeased_error hv]
    exact refused_call hk c.partition e
  | ok u =>
    obtain ⟨k, hs⟩ := driveLeased_settled (p := c.partition) (h := c.harness) hk.ledger hv
    have htotal : c.totalSeeds = total := hk.totalSeeds_eq hv
    generalize driveRunPartitionedWithLeaseFromCheckpoint c.campaignId cp c.totalSeeds c.partition
      c.nowMs c.leaseTtlMs c.harness = d at hs ⊢
    rw [htotal] at hs
    have hmem : ∀ n i, i ∈ leasedTodoBelow cp c.partition n ↔
        i < n ∧ c.partition.ownsSeed i = true ∧ ¬ done i := by
      intro n i
      rw [leasedTodoBelow, mem_filter_range, leasedTodo, Bool.and_eq_true, Bool.not_eq_true',
        isSeedCompleted, decide_eq_false_iff_not, hk.completed]
    constructor
    · constructor
      case schema => rw [hs.schema]; exact hk.schema
      case campaign => rw [hs.campaign]; exact hk.campaign
      case totalSeeds => rw [hs.totalSeeds]; exact hk.totalSeeds
      case next => exact hs.next.trans (max_le hk.next hs.le)
      case completed =>
        intro i
        rw [hs.completed, hs.recorded, hk.completed]
      case normalized => rw [hs.ranges]; exact hk.normalized
      case covered =>
        intro slot hslot i hi heq
        have hold : slot ∈ cp.ringCoverage.slots := by
          rw [mem_slots, hs.ranges] at hslot
          exact hslot
        exact Or.inl (hk.covered slot hold i hi heq)
      case ledger => exact hs.ledger
    · refine ⟨?_, ?_, ?_⟩
      · rw [Driven.batch, hs.recorded]
        exact List.nodup_range.filter _
      · intro i hi
        rw [Driven.batch, hs.recorded, hmem] at hi
        exact hi.2.2
      · rintro hfin i ⟨hi, hown⟩
        rw [Driven.batch, hs.recorded, hs.finished hfin, hmem]
        by_cases hdone : done i
        · exact Or.inl hdone
        · exact Or.inr ⟨hi, hown, hdone⟩

structure LeasedRun (campaignId : String) (total : ℕ) (h : History LeasedCall) : Prop where
  faithful : h.Faithful LeasedCall.partition campaignId total
  accounted : ∀ call ∈ h.calls, call.1.Accounted call.2

theorem LeasedRun.step {campaignId : String} {total : ℕ} {h : History LeasedCall}
    (hr : LeasedRun campaignId total h) (c : LeasedCall) :
    LeasedRun campaignId total (h.step LeasedCall.drive c) := by
  refine ⟨hr.faithful.step LeasedCall.careful c, ?_⟩
  intro call hcall
  rcases List.mem_append.mp hcall with hold | hnew
  · exact hr.accounted call hold
  · rw [List.mem_singleton.mp hnew]
    exact LeasedCall.accounted hr.faithful.kept.ledger c

theorem leasedRun_run (toVec : RunCheckpoint → List UInt8) (campaignId : String)
    (seeds : List CaseSeed) (calls : List LeasedCall) :
    LeasedRun campaignId seeds.length
      (run (History.step LeasedCall.drive) (.start toVec campaignId seeds) calls) :=
  run_invariant (I := LeasedRun campaignId seeds.length) (fun _ c hr => hr.step c)
    ⟨History.faithful_start _ toVec campaignId seeds, by simp [History.start]⟩ calls

theorem LeasedRun.recorded_sublist {campaignId : String} {total : ℕ} {h : History LeasedCall}
    (hr : LeasedRun campaignId total h) : h.recorded.Sublist h.executed := by
  obtain ⟨cp, calls⟩ := h
  have hall := hr.accounted
  clear hr
  induction calls with
  | nil => exact List.Sublist.refl _
  | cons call calls ih =>
    obtain ⟨hcall, hrest⟩ := List.forall_mem_cons.mp hall
    exact hcall.1.append (ih hrest)

theorem LeasedRun.executed_eq_recorded {campaignId : String} {total : ℕ} {h : History LeasedCall}
    (hr : LeasedRun campaignId total h) (hlive : ∀ call ∈ h.calls, call.1.Live) :
    h.executed = h.recorded :=
  List.flatMap_congr fun call hcall => (hr.accounted call hcall).2 (hlive call hcall)

theorem leased_exactly_once (toVec : RunCheckpoint → List UInt8) (campaignId : String)
    (seeds : List CaseSeed) (calls : List LeasedCall) :
    let h := run (History.step LeasedCall.drive) (.start toVec campaignId seeds) calls
    h.recorded.Nodup ∧
    (∀ (c : LeasedCall), ∀ lease ∈ h.checkpoint.ringCoverage.leaseLedger.leases,
      lease.overlaps c.partition.range = true → c.nowMs < lease.expiresAtMs →
      (LeasedCall.drive h.checkpoint c).worked = [] ∧
        (LeasedCall.drive h.checkpoint c).checkpoint.ringCoverage.completedSeedIndices =
          h.checkpoint.ringCoverage.completedSeedIndices) ∧
    (h.PoolCompleted LeasedCall.partition → ∀ i < seeds.length,
      h.recorded.count i = 1 ∧ 1 ≤ h.executed.count i) ∧
    ((∀ c ∈ calls, 0 < c.leaseTtlMs ∧ c.nowMs < u64Max) → h.executed.Nodup ∧
      (h.PoolCompleted LeasedCall.partition → ∀ i < seeds.length, h.executed.count i = 1)) := by
  intro h
  have hr : LeasedRun campaignId seeds.length h := leasedRun_run toVec campaignId seeds calls
  have hcount : h.PoolCompleted LeasedCall.partition → ∀ i < seeds.length, h.recorded.count i = 1 :=
    fun hpool i hi => hr.faithful.count_recorded hpool hi
  refine ⟨hr.faithful.recorded_nodup, ?_, ?_, ?_⟩
  · intro c lease hmem hover hlive
    exact driveLeased_blocked hmem hover hlive
  · intro hpool i hi
    refine ⟨hcount hpool i hi, ?_⟩
    rw [← hcount hpool i hi]
    exact hr.recorded_sublist.count_le i
  · intro hall
    have hcalls : h.calls.map Prod.fst = calls := History.map_fst_calls_run _ _ calls
    have hexec : h.executed = h.recorded := by
      apply hr.executed_eq_recorded
      intro call hcall
      have hin : call.1 ∈ calls := hcalls ▸ List.mem_map_of_mem hcall
      exact lt_saturatingAdd (hall call.1 hin).2 (hall call.1 hin).1
    rw [hexec]
    exact ⟨hr.faithful.recorded_nodup, hcount⟩

theorem expired_lease_repeats_work :
    let seeds : List CaseSeed := [⟨0, []⟩]
    let call (ttl : ℕ) : LeasedCall := ⟨"campaign", 1, ⟨0, 1, _, ringRangeFor_of_lt (by decide)⟩,
      0, ttl, ⟨fun _ => false, fun _ => .ok ()⟩⟩
    let h := run (History.step LeasedCall.drive) (.start (fun _ => []) "campaign" seeds)
      [call 0, call 10]
    h.PoolCompleted LeasedCall.partition ∧ ¬ ∀ i < seeds.length, h.executed.count i = 1 := by
  -- under a lease born expired the work is done but not recorded, and the next call repeats it
  intro seeds call h
  constructor
  · refine ⟨1, le_refl _, fun w hw => ?_⟩
    obtain rfl : w = 0 := by omega
    exact ⟨_, List.mem_cons_of_mem _ List.mem_cons_self, rfl, rfl, ⟨_, rfl⟩⟩
  · intro hall
    exact absurd (hall 0 (by decide)) (by decide +kernel)

end CrashLab.Run
