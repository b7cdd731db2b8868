import CrashLab.Batches
import CrashLab.Histories
import CrashLab.PartitionedDriver

namespace CrashLab.Run

open MachineInts WorkerRing RingCoverage Histories Batches

structure Kept (campaignId : String) (total : ℕ) (done : ℕ → Prop) (cp : RunCheckpoint) : Prop where
  schema : cp.schema ∈ supportedRunCheckpointSchemas
  campaign : cp.campaignId = campaignId
  totalSeeds : cp.totalSeeds = total
  next : cp.nextSeedIndex ≤ total
  completed : ∀ i, i ∈ cp.ringCoverage.completedSeedIndices ↔ done i
  normalized : Normalized cp.ringCoverage.ranges
  covered : ∀ slot ∈ cp.ringCoverage.slots, ∀ i < total, ringSlot i = slot → done i
  ledger : cp.ringCoverage.leaseLedger.WellFormed

def Driven.batch (d : Driven) (total : ℕ) (p : WorkerPartition) : Batch ℕ where
  owned i := i < total ∧ p.ownsSeed i = true
  executed := d.recorded
  finished := d.isCompleted

def Careful {Call : Type} (partition : Call → WorkerPartition)
    (drive : RunCheckpoint → Call → Driven) : Prop :=
  ∀ campaignId total done cp c, Kept campaignId total done cp →
    Kept campaignId total (fun i => done i ∨ i ∈ (drive cp c).recorded) (drive cp c).checkpoint ∧
      ((drive cp c).batch total (partition c)).Sound done

structure History (Call : Type) where
  checkpoint : RunCheckpoint
  calls : List (Call × Driven)

namespace History

variable {Call : Type}

def start (toVec : RunCheckpoint → List UInt8) (campaignId : String) (seeds : List CaseSeed) :
    History Call := ⟨.newRun toVec campaignId seeds, []⟩

def step (drive : RunCheckpoint → Call → Driven) (h : History Call) (c : Call) : History Call :=
  ⟨(drive h.checkpoint c).checkpoint, h.calls ++ [(c, drive h.checkpoint c)]⟩

def executed (h : History Call) : List ℕ := h.calls.flatMap fun call => call.2.executed

def recorded (h : History Call) : List ℕ := h.calls.flatMap fun call => call.2.recorded

@[simp] theorem executed_step (drive : RunCheckpoint → Call → Driven) (h : History Call) (c : Call) :
    (h.step drive c).executed = h.executed ++ (drive h.checkpoint c).executed := by
  simp [executed, step]

@[simp] theorem recorded_step (drive : RunCheckpoint → Call → Driven) (h : History Call) (c : Call) :
    (h.step drive c).recorded = h.recorded ++ (drive h.checkpoint c).recorded := by
  simp [recorded, step]

def batches (partition : Call → WorkerPartition) (total : ℕ) (h : History Call) : List (Batch ℕ) :=
  h.calls.map fun call => call.2.batch total (partition call.1)

theorem executed_batches (partition : Call → WorkerPartition) (total : ℕ) (h : History Call) :
    Batches.executed (h.batches partition total) = h.recorded := by
  rw [Batches.executed, batches, List.flatMap_map]
  rfl

def PoolCompleted (partition : Call → WorkerPartition) (h : History Call) : Prop :=
  ∃ n, 1 ≤ n ∧ ∀ w < n, ∃ call ∈ h.calls, (partition call.1).workerIndex = w ∧
    (partition call.1).numWorkers = n ∧ call.2.isCompleted

structure Faithful (partition : Call → WorkerPartition) (campaignId : String) (total : ℕ)
    (h : History Call) : Prop where
  kept : Kept campaignId total (· ∈ h.recorded) h.checkpoint
  log : Log (h.batches partition total)

theorem faithful_start (partition : Call → WorkerPartition) (toVec : RunCheckpoint → List UInt8)
    (campaignId : String) (seeds : List CaseSeed) :
    Faithful partition campaignId seeds.length (start toVec campaignId seeds) where
  kept := by
    constructor <;> simp [start, RunCheckpoint.newRun, runCheckpointSchemaVersion,
      supportedRunCheckpointSchemas, RingCoverage.new, recorded, mem_slots,
      LeaseLedger.wellFormed_default]
    constructor <;> simp
  log := log_nil

theorem Faithful.step {partition : Call → WorkerPartition} {drive : RunCheckpoint → Call → Driven}
    (hd : Careful partition drive) {campaignId : String} {total : ℕ} {h : History Call}
    (hf : Faithful partition campaignId total h) (c : Call) :
    Faithful partition campaignId total (h.step drive c) := by
  obtain ⟨hkept, hsound⟩ := hd campaignId total (· ∈ h.recorded) h.checkpoint c hf.kept
  constructor
  · simp only [recorded_step, List.mem_append]
    exact hkept
  · have hlog := log_concat hf.log (b := (drive h.checkpoint c).batch total (partition c))
      (by simpa only [executed_batches] using hsound)
    simpa only [batches, History.step, List.map_append, List.map_cons, List.map_nil] using hlog

theorem map_fst_calls_run (drive : RunCheckpoint → Call → Driven) (h : History Call)
    (calls : List Call) :
    (run (History.step drive) h calls).calls.map Prod.fst = h.calls.map Prod.fst ++ calls := by
  induction calls generalizing h with
  | nil => simp
  | cons c calls ih =>
    rw [run_cons, ih]
    simp [History.step]

theorem Faithful.recorded_nodup {partition : Call → WorkerPartition} {campaignId : String}
    {total : ℕ} {h : History Call} (hf : Faithful partition campaignId total h) :
    h.recorded.Nodup := by
  rw [← executed_batches partition total]
  exact hf.log.nodup

theorem Faithful.count_recorded {partition : Call → WorkerPartition} {campaignId : String}
    {total : ℕ} {h : History Call} (hf : Faithful partition campaignId total h)
    (hpool : h.PoolCompleted partition) {i : ℕ} (hi : i < total) : h.recorded.count i = 1 := by
  obtain ⟨n, hn, hall⟩ := hpool
  obtain ⟨w, ⟨hw, p, hp, hown⟩, -⟩ := owner_existsUnique hn i
  obtain ⟨call, hcall, hindex, hnum, hdone⟩ := hall w hw
  obtain ⟨hpw, hpn⟩ := WorkerPartition.tryNew_ok hp
  have howned : (partition call.1).ownsSeed i = true := by
    rw [WorkerPartition.ownsSeed_iff_workerForSeed] at hown ⊢
    rwa [hindex, hnum, ← hpw, ← hpn]
  rw [← executed_batches partition total]
  exact hf.log.count_eq_one ⟨_, List.mem_map_of_mem hcall, hdone, hi, howned⟩

end History

structure PartitionedCall where
  campaignId : String
  totalSeeds : ℕ
  partition : WorkerPartition
  harness : Harness

def PartitionedCall.drive (cp : RunCheckpoint) (c : PartitionedCall) : Driven :=
  driveRunPartitionedFromCheckpoint c.campaignId cp c.totalSeeds c.partition c.harness

theorem validateResumeCheckpoint_ok {cp : RunCheckpoint} {campaignId : String} {total : ℕ}
    (h : validateResumeCheckpoint cp campaignId total = .ok ()) :
    total ≤ usizeMax ∧ cp.validateRun campaignId total = .ok () := by
  unfold validateResumeCheckpoint at h
  split_ifs at h with hbig
  split at h
  · cases h
  · exact ⟨by omega, by assumption⟩

theorem Kept.totalSeeds_eq {campaignId recorded : String} {total n : ℕ} {done : ℕ → Prop}
    {cp : RunCheckpoint} (hk : Kept recorded total done cp)
    (hv : validateResumeCheckpoint cp campaignId n = .ok ()) : n = total := by
  have hvalid := (RunCheckpoint.validateRun_ok_iff _ _ _).mp (validateResumeCheckpoint_ok hv).2
  exact hvalid.2.2.1.symm.trans hk.totalSeeds

theorem refused_call {campaignId : String} {total : ℕ} {done : ℕ → Prop} {cp : RunCheckpoint}
    (hk : Kept campaignId total done cp) (p : WorkerPartition) (e : RunResumeError) :
    let d : Driven := ⟨.error e, cp, [], []⟩
    Kept campaignId total (fun i => done i ∨ i ∈ d.recorded) d.checkpoint ∧
      (d.batch total p).Sound done := by
  refine ⟨by simpa only [List.not_mem_nil, or_false] using hk, List.nodup_nil, by simp [Driven.batch], ?_⟩
  rintro ⟨summary, hsum⟩
  cases hsum

theorem todoBelow_nodup (cp : RunCheckpoint) (p : WorkerPartition) (k : ℕ) :
    (todoBelow cp p k).Nodup := List.nodup_range.filter _

theorem PartitionedCall.careful : Careful PartitionedCall.partition PartitionedCall.drive := by
  intro campaignId total done cp c hk
  unfold PartitionedCall.drive
  cases hv : validateResumeCheckpoint cp c.campaignId c.totalSeeds with
  | error e =>
    rw [driveRunPartitioned_error hv]
    exact refused_call hk c.partition e
  | ok u =>
    obtain ⟨k, hr⟩ := driveRunPartitioned_reached (p := c.partition) (h := c.harness) hk.normalized hv
    have htotal : c.totalSeeds = total := hk.totalSeeds_eq hv
    generalize driveRunPartitionedFromCheckpoint c.campaignId cp c.totalSeeds c.partition c.harness = d
      at hr ⊢
    rw [htotal] at hr
    have hs := hr.settled
    have hmem : ∀ i, i ∈ todoBelow cp c.partition k ↔ i < k ∧ c.partition.ownsSeed i = true ∧
        ringSlot i ∉ cp.ringCoverage.slots ∧ ¬ done i := by
      intro i
      rw [todoBelow, mem_filter_range, todo_eq_true_iff hk.normalized, hk.completed]
    constructor
    · constructor
      case schema => rw [hs.schema]; exact hk.schema
      case campaign => rw [hs.campaign]; exact hk.campaign
      case totalSeeds => rw [hs.totalSeeds]; exact hk.totalSeeds
      case next => rw [hs.next]; exact hr.le
      case completed =>
        intro i
        rw [hs.completed, hs.recorded, hk.completed]
      case normalized => exact hs.normalized
      case covered =>
        intro slot hslot i hi heq
        rw [hs.recorded, hmem]
        by_cases hold : slot ∈ cp.ringCoverage.slots
        · exact Or.inl (hk.covered slot hold i hi heq)
        obtain ⟨j, hj, hlast⟩ := ((hs.slots slot).mp hslot).resolve_left hold
        obtain ⟨hpend, hjt, hjs, hmax⟩ := lastIndexForSlot_eq_some.mp hlast
        have hle := hmax i hi heq
        have hown : c.partition.range.contains slot = true :=
          ((mem_uncoveredWithin hk.normalized c.partition.range slot).mp hpend).1
        by_cases hdone : done i
        · exact Or.inl hdone
        · exact Or.inr ⟨by omega, by rw [← heq] at hown; exact hown, heq ▸ hold, hdone⟩
      case ledger => rw [hs.ledger]; exact hk.ledger
    · refine ⟨?_, ?_, ?_⟩
      · simpa only [Driven.batch, hs.recorded] using todoBelow_nodup cp c.partition k
      · intro i hi
        rw [Driven.batch, hs.recorded, hmem] at hi
        exact hi.2.2.2
      · rintro hfin i ⟨hi, hown⟩
        rw [Driven.batch, hs.recorded, hmem, hr.completed.mp hfin]
        by_cases hold : ringSlot i ∈ cp.ringCoverage.slots
        · exact Or.inl (hk.covered _ hold i hi rfl)
        by_cases hdone : done i
        · exact Or.inl hdone
        · exact Or.inr ⟨hi, hown, hold, hdone⟩

theorem PartitionedCall.executed_eq_recorded {cp : RunCheckpoint}
    (hn : Normalized cp.ringCoverage.ranges) (c : PartitionedCall) :
    (PartitionedCall.drive cp c).executed = (PartitionedCall.drive cp c).recorded := by
  unfold PartitionedCall.drive
  cases hv : validateResumeCheckpoint cp c.campaignId c.totalSeeds with
  | error e =>
    rw [driveRunPartitioned_error hv]
    rfl
  | ok u =>
    obtain ⟨k, hr⟩ := driveRunPartitioned_reached (p := c.partition) (h := c.harness) hn hv
    exact hr.settled.executed.trans hr.settled.recorded.symm

structure PartitionedRun (campaignId : String) (total : ℕ) (h : History PartitionedCall) : Prop where
  faithful : h.Faithful PartitionedCall.partition campaignId total
  executed : h.executed = h.recorded

theorem partitionedRun_start (toVec : RunCheckpoint → List UInt8) (campaignId : String)
    (seeds : List CaseSeed) :
    PartitionedRun campaignId seeds.length (.start toVec campaignId seeds) :=
  ⟨History.faithful_start _ toVec campaignId seeds, rfl⟩

theorem PartitionedRun.step {campaignId : String} {total : ℕ} {h : History PartitionedCall}
    (hp : PartitionedRun campaignId total h) (c : PartitionedCall) :
    PartitionedRun campaignId total (h.step PartitionedCall.drive c) := by
  refine ⟨hp.faithful.step PartitionedCall.careful c, ?_⟩
  rw [History.executed_step, History.recorded_step, hp.executed,
    PartitionedCall.executed_eq_recorded hp.faithful.kept.normalized]

theorem partitioned_exactly_once (toVec : RunCheckpoint → List UInt8) (campaignId : String)
    (seeds : List CaseSeed) (calls : List PartitionedCall) :
    let h := run (History.step PartitionedCall.drive) (.start toVec campaignId seeds) calls
    h.executed.Nodup ∧
    (∀ slot, h.checkpoint.ringCoverage.isSlotCovered slot = true →
      ∀ i < seeds.length, ringSlot i = slot → i ∈ h.executed) ∧
    (h.PoolCompleted PartitionedCall.partition → ∀ i < seeds.length, h.executed.count i = 1) := by
  intro h
  have hp : PartitionedRun campaignId seeds.length h :=
    run_invariant (I := PartitionedRun campaignId seeds.length) (fun _ c hp => hp.step c)
      (partitionedRun_start toVec campaignId seeds) calls
  rw [hp.executed]
  refine ⟨hp.faithful.recorded_nodup, fun slot hslot => ?_, fun hpool i hi => ?_⟩
  · exact hp.faithful.kept.covered slot ((isSlotCovered_iff _ slot).mp hslot)
  · exact hp.faithful.count_recorded hpool hi

def ProgressSound {Call : Type} (seeds : List CaseSeed) (h : History Call) : Prop :=
  (h.checkpoint.isComplete seeds = true → ∀ i < seeds.length, i ∈ h.executed) ∧
    ∀ i < h.checkpoint.nextSeedIndex, i ∈ h.executed

def CursorSafe (h : History PartitionedCall) (c : PartitionedCall) : Prop :=
  validateResumeCheckpoint h.checkpoint c.campaignId c.totalSeeds = .ok () →
    ∀ i < c.totalSeeds, (∀ j ≤ i, Passes h.checkpoint c.partition c.harness j) →
      c.partition.ownsSeed i = true ∨ i ∈ h.executed

theorem Reached.lt_iff {cp : RunCheckpoint} {p : WorkerPartition} {total k : ℕ} {h : Harness}
    {d : Driven} (hr : Reached cp p total h k d) (i : ℕ) :
    i < k ↔ i < total ∧ ∀ j ≤ i, Passes cp p h j := by
  constructor
  · intro hi
    exact ⟨hi.trans_le hr.le, fun j hj => hr.passes j (by omega)⟩
  · rintro ⟨hi, hall⟩
    by_contra hge
    exact hr.stopped (by omega) (hall k (by omega))

theorem progressSound_iff {seeds : List CaseSeed} {h : History PartitionedCall}
    (htotal : h.checkpoint.nextSeedIndex ≤ seeds.length) :
    ProgressSound seeds h ↔ ∀ i < h.checkpoint.nextSeedIndex, i ∈ h.executed := by
  refine ⟨fun hs => hs.2, fun hbelow => ⟨fun hcomplete i hi => hbelow i ?_, hbelow⟩⟩
  have hend : seeds.length ≤ h.checkpoint.nextSeedIndex := by
    simpa [RunCheckpoint.isComplete] using hcomplete
  omega

theorem progressSound_step_iff {campaignId : String} {seeds : List CaseSeed}
    {h : History PartitionedCall} (hp : PartitionedRun campaignId seeds.length h)
    (hs : ProgressSound seeds h) (c : PartitionedCall) :
    ProgressSound seeds (h.step PartitionedCall.drive c) ↔ CursorSafe h c := by
  have hp' := hp.step c
  have hk := hp.faithful.kept
  rw [progressSound_iff hp'.faithful.kept.next, CursorSafe, History.executed_step]
  simp only [History.step, PartitionedCall.drive]
  cases hv : validateResumeCheckpoint h.checkpoint c.campaignId c.totalSeeds with
  | error e =>
    rw [driveRunPartitioned_error hv]
    refine iff_of_true (fun i hi => List.mem_append_left _ (hs.2 i hi)) (fun hok => ?_)
    cases hok
  | ok u =>
    obtain ⟨k, hr⟩ := driveRunPartitioned_reached (p := c.partition) (h := c.harness) hk.normalized hv
    have htotal : c.totalSeeds = seeds.length := hk.totalSeeds_eq hv
    rw [hr.settled.next, hr.settled.executed]
    simp only [forall_const]
    constructor
    · intro hbelow i hi hall
      have hik := (hr.lt_iff i).mpr ⟨hi, hall⟩
      rcases List.mem_append.mp (hbelow i hik) with hdone | hin
      · exact Or.inr hdone
      · rw [todoBelow, mem_filter_range, todo_eq_true_iff hk.normalized] at hin
        exact Or.inl hin.2.1
    · intro hsafe i hik
      obtain ⟨hi, hall⟩ := (hr.lt_iff i).mp hik
      rw [List.mem_append]
      by_cases hdone : i ∈ h.executed
      · exact Or.inl hdone
      have hown := (hsafe i hi hall).resolve_right hdone
      rw [hp.executed] at hdone
      rw [todoBelow, mem_filter_range, todo_eq_true_iff hk.normalized, hk.completed]
      refine Or.inr ⟨hik, hown, fun hslot => ?_, hdone⟩
      exact hdone (hk.covered _ hslot i (htotal ▸ hi) rfl)

theorem cursor_sound_iff_calls_safe (toVec : RunCheckpoint → List UInt8) (campaignId : String)
    (seeds : List CaseSeed) (calls : List PartitionedCall) :
    Always (History.step PartitionedCall.drive) (ProgressSound seeds)
      (.start toVec campaignId seeds) calls ↔
    EachStep (History.step PartitionedCall.drive) CursorSafe
      (.start toVec campaignId seeds) calls := by
  have hstart : ProgressSound seeds (.start toVec campaignId seeds : History PartitionedCall) := by
    rw [progressSound_iff (Nat.zero_le _)]
    intro i hi
    exact absurd hi (Nat.not_lt_zero i)
  rw [always_iff_eachStep hstart]
  refine eachStep_iff (I := fun h => PartitionedRun campaignId seeds.length h ∧ ProgressSound seeds h)
    (fun h c hi hsound => ⟨hi.1.step c, hsound⟩)
    (fun h c hi => progressSound_step_iff hi.1 hi.2 c)
    ⟨partitionedRun_start toVec campaignId seeds, hstart⟩ calls

theorem one_partition_completes_the_checkpoint :
    let seeds : List CaseSeed := [⟨0, []⟩, ⟨1, []⟩, ⟨2, []⟩, ⟨3, []⟩]
    let call : PartitionedCall :=
      ⟨"campaign", 4, ⟨1, 3, _, ringRangeFor_of_lt (by decide)⟩, ⟨fun _ => false, fun _ => .ok ()⟩⟩
    ¬ ProgressSound seeds
      (run (History.step PartitionedCall.drive) (.start (fun _ => []) "campaign" seeds) [call]) := by
  -- worker 1 of 3 completes a schedule of four seeds without executing seed 0: the checkpoint is complete and a
  -- single-worker resume would start past it
  intro seeds call hsound
  have hall := hsound.1 (by decide +kernel) 0 (by decide)
  exact absurd hall (by decide +kernel)

end CrashLab.Run
