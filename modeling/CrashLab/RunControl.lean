import CrashLab.Checkpoint
import CrashLab.Loops

namespace CrashLab.Run

open MachineInts WorkerRing Loops

structure RunSummary where
  seedsProcessed : ℕ
  cancelledAtSeed : Option ℕ
deriving DecidableEq, Repr

inductive RunTerminalState where
  | completed (summary : RunSummary)
  | cancelled (summary : RunSummary)
  | plateauStop (summary : RunSummary)
  | failed (message : String)
deriving DecidableEq, Repr

inductive RunResumeError where
  | checkpoint (err : CheckpointError)
  | totalSeedsOverflow (totalSeeds : ℕ)
  | lease (err : LeaseError)
deriving DecidableEq, Repr

/-- What the caller passes for one call. A driver polls the signal at most once and runs the work
at most once for each seed index, so both are functions of the index. -/
structure Harness where
  cancelled : ℕ → Bool
  work : ℕ → Except String Unit

/-- Outcome of a checkpointed driver call, with the calls of `work` it made in order and the seeds
it recorded as completed. -/
structure Driven where
  result : Except RunResumeError RunTerminalState
  checkpoint : RunCheckpoint
  worked : List (ℕ × Except String Unit)
  recorded : List ℕ

def Driven.executed (d : Driven) : List ℕ :=
  (d.worked.filter fun call => call.2.isOk).map Prod.fst

def Driven.isCompleted (d : Driven) : Prop := ∃ summary, d.result = .ok (.completed summary)

def validateResumeCheckpoint (cp : RunCheckpoint) (campaignId : String) (totalSeeds : ℕ) :
    Except RunResumeError Unit :=
  if totalSeeds > usizeMax then .error (.totalSeedsOverflow totalSeeds)
  else match cp.validateRun campaignId totalSeeds with
    | .error e => .error (.checkpoint e)
    | .ok () => .ok ()

structure Sweep where
  checkpoint : RunCheckpoint
  seedsProcessed : ℕ
  completedSlots : List ℕ
  worked : List (ℕ × Except String Unit)
  recorded : List ℕ

namespace Sweep

def start (cp : RunCheckpoint) : Sweep := ⟨cp, 0, [], [], []⟩

def setNext (s : Sweep) (next : ℕ) : Sweep :=
  { s with checkpoint := { s.checkpoint with nextSeedIndex := next } }

def setCoverage (s : Sweep) (coverage : RingCoverage) : Sweep :=
  { s with checkpoint := { s.checkpoint with ringCoverage := coverage } }

def logWork (s : Sweep) (seedIndex : ℕ) (r : Except String Unit) : Sweep :=
  { s with worked := s.worked ++ [(seedIndex, r)] }

def flushSlots (s : Sweep) : Sweep :=
  s.setCoverage (s.checkpoint.ringCoverage.markSlots s.completedSlots)

def leave (s : Sweep) (result : Except RunResumeError RunTerminalState) : Driven :=
  ⟨result, s.checkpoint, s.worked, s.recorded⟩

def complete (s : Sweep) : Driven := s.leave (.ok (.completed ⟨s.seedsProcessed, none⟩))

def cancel (s : Sweep) (seedIndex : ℕ) : Driven :=
  s.leave (.ok (.cancelled ⟨s.seedsProcessed, some seedIndex⟩))

def fail (s : Sweep) (message : String) : Driven := s.leave (.ok (.failed message))

end Sweep

def driveRunFromCheckpoint (campaignId : String) (cp : RunCheckpoint) (totalSeeds : ℕ)
    (h : Harness) : Driven :=
  match validateResumeCheckpoint cp campaignId totalSeeds with
  | .error e => ⟨.error e, cp, [], []⟩
  | .ok () =>
    let body (i : ℕ) (s : Sweep) : Flow Driven Sweep :=
      if h.cancelled i then .stop (s.cancel i)
      else match h.work i with
        | .error message => .stop ((s.logWork i (.error message)).fail message)
        | .ok () =>
          let s := (s.logWork i (.ok ())).setNext (i + 1)
          .next { s with seedsProcessed := s.seedsProcessed + 1 }
    (forRange body cp.nextSeedIndex (totalSeeds - cp.nextSeedIndex) (.start cp)).orElse
      Sweep.complete

def slotPending (pending : List RingRange) (slot : ℕ) : Bool := pending.any (·.contains slot)

def lastIndexForSlot (pending : List RingRange) (totalSeeds : ℕ) : ℕ → Option ℕ :=
  (List.range totalSeeds).foldl (fun last i =>
    if slotPending pending (ringSlot i) then Function.update last (ringSlot i) (some i) else last)
    fun _ => none

def Sweep.finishSlot (s : Sweep) (last : ℕ → Option ℕ) (seedIndex : ℕ) : Sweep :=
  if last (ringSlot seedIndex) = some seedIndex then
    { s with completedSlots := s.completedSlots ++ [ringSlot seedIndex] }
  else s

def sweepSeed (pending : List RingRange) (last : ℕ → Option ℕ) (h : Harness) (i : ℕ) (s : Sweep) :
    Flow Driven Sweep :=
  let s := s.setNext i
  if h.cancelled i then .stop (s.flushSlots.cancel i)
  else if !slotPending pending (ringSlot i) then .next (s.setNext (i + 1))
  else if s.checkpoint.ringCoverage.isSeedCompleted i then
    .next ((s.finishSlot last i).setNext (i + 1))
  else match h.work i with
    -- the slot of the failed seed stays uncovered, so a retry executes it again
    | .error message => .stop ((s.logWork i (.error message)).flushSlots.fail message)
    | .ok () =>
      let s := (s.logWork i (.ok ())).setNext (i + 1)
      let s := s.setCoverage (s.checkpoint.ringCoverage.markSeedCompleted i).2
      let s := { s with seedsProcessed := s.seedsProcessed + 1, recorded := s.recorded ++ [i] }
      .next (s.finishSlot last i)

def driveRunPartitionedFromCheckpoint (campaignId : String) (cp : RunCheckpoint) (totalSeeds : ℕ)
    (partition : WorkerPartition) (h : Harness) : Driven :=
  match validateResumeCheckpoint cp campaignId totalSeeds with
  | .error e => ⟨.error e, cp, [], []⟩
  | .ok () =>
    let pending := cp.ringCoverage.uncoveredWithin partition.range
    -- a partition with nothing left moves the cursor to the end of the whole schedule
    if pending.isEmpty then ((Sweep.start cp).setNext totalSeeds).complete
    else
      let last := lastIndexForSlot pending totalSeeds
      (forRange (sweepSeed pending last h) 0 totalSeeds (.start cp)).orElse fun s =>
        (s.flushSlots.setNext totalSeeds).complete

def leasedSeed (partition : WorkerPartition) (token : LeaseToken) (nowMs : ℕ) (h : Harness) (i : ℕ)
    (s : Sweep) : Flow Driven Sweep :=
  if h.cancelled i then .stop (s.cancel i)
  else if !partition.ownsSeed i || s.checkpoint.ringCoverage.isSeedCompleted i then .next s
  else match h.work i with
    | .error message => .stop ((s.logWork i (.error message)).fail message)
    | .ok () =>
      let s := s.logWork i (.ok ())
      match s.checkpoint.ringCoverage.recordSeedCompleted token i nowMs with
      | (.error e, coverage) => .stop ((s.setCoverage coverage).leave (.error (.lease e)))
      | (.ok _, coverage) =>
        let s := (s.setCoverage coverage).setNext (min (i + 1) usizeMax)
        .next { s with seedsProcessed := s.seedsProcessed + 1, recorded := s.recorded ++ [i] }

def driveRunPartitionedWithLeaseFromCheckpoint (campaignId : String) (cp : RunCheckpoint)
    (totalSeeds : ℕ) (partition : WorkerPartition) (nowMs leaseTtlMs : ℕ) (h : Harness) : Driven :=
  match validateResumeCheckpoint cp campaignId totalSeeds with
  | .error e => ⟨.error e, cp, [], []⟩
  | .ok () =>
    if partition.range.isEmpty then (Sweep.start cp).complete
    else
      let coverage := cp.ringCoverage
      let claimed := coverage.leaseLedger.claim partition.range partition.workerIndex nowMs leaseTtlMs
      let s := (Sweep.start cp).setCoverage { coverage with leaseLedger := claimed.2 }
      match claimed.1 with
      | .error e => s.leave (.error (.lease e))
      | .ok token =>
        (forRange (leasedSeed partition token nowMs h) 0 totalSeeds s).orElse Sweep.complete

end CrashLab.Run
