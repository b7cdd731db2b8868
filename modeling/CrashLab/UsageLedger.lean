import CrashLab.CampaignQuotas
import CrashLab.Histories
import CrashLab.KeyedLists

namespace CrashLab.UsageLedger

open Capacity CampaignQuotas KeyedLists

def leaseTtlMs : CampaignClass → ℕ
  | .interactive => 60 * 60 * 1000
  | .nightly => 8 * 60 * 60 * 1000
  | .deep => 24 * 60 * 60 * 1000

def leaseHistoryMs : ℕ := 35 * 24 * 60 * 60 * 1000

def utcDay (at_ : ℕ) : ℕ := at_ / dayMs

variable {κ : Type}

structure CampaignLease (κ : Type) where
  campaignId : κ
  scope : String
  project : String
  campaignClass : CampaignClass
  workers : ℕ
  seedsReserved : ℕ
  rpcCallsReserved : ℕ
  seedsUsed : ℕ
  rpcCallsUsed : ℕ
  day : ℕ
  startedAt : ℕ
  expiresAt : ℕ
  finishedAt : Option ℕ
deriving DecidableEq, Repr

inductive ReportStatus where
  | running
  | finished
deriving DecidableEq, Repr

structure UsageReport where
  seedsProcessed : ℕ
  rpcCalls : Option ℕ := none
  storageBytes : Option ℕ := none
  status : ReportStatus
deriving DecidableEq, Repr

structure AdmitInput (κ : Type) extends ResourceRequest where
  campaignId : κ
  scope : String
  project : String

structure CapacityLedger (κ : Type) where
  leases : List (CampaignLease κ) := []
  storage : String → Option ℕ := fun _ => none

namespace CampaignLease

def isActive (lease : CampaignLease κ) (at_ : ℕ) : Bool := lease.finishedAt.isNone && decide (at_ < lease.expiresAt)

def chargedSeeds (lease : CampaignLease κ) (at_ : ℕ) : ℕ :=
  if lease.isActive at_ then max lease.seedsReserved lease.seedsUsed else lease.seedsUsed

def chargedRpcCalls (lease : CampaignLease κ) (at_ : ℕ) : ℕ :=
  if lease.isActive at_ then max lease.rpcCallsReserved lease.rpcCallsUsed else lease.rpcCallsUsed

def reported (lease : CampaignLease κ) (at_ : ℕ) (report : UsageReport) : CampaignLease κ :=
  let lease :=
    { lease with
      seedsUsed := max lease.seedsUsed report.seedsProcessed
      rpcCallsUsed := max lease.rpcCallsUsed (report.rpcCalls.getD 0) }
  match lease.finishedAt, report.status with
  | some _, _ => lease
  | none, .finished => { lease with finishedAt := some at_ }
  | none, .running => { lease with expiresAt := at_ + leaseTtlMs lease.campaignClass }

end CampaignLease

namespace CapacityLedger

def prune (ledger : CapacityLedger κ) (at_ : ℕ) : CapacityLedger κ :=
  { ledger with
    leases := ledger.leases.filter fun lease =>
      !decide (lease.finishedAt.getD lease.expiresAt + leaseHistoryMs < at_) }

def leaseFor (at_ : ℕ) (input : AdmitInput κ) : CampaignLease κ :=
  { campaignId := input.campaignId
    scope := input.scope
    project := input.project
    campaignClass := input.campaignClass
    workers := input.workers
    seedsReserved := input.seeds
    rpcCallsReserved := input.rpcCalls
    seedsUsed := 0
    rpcCallsUsed := 0
    day := utcDay at_
    startedAt := at_
    expiresAt := at_ + leaseTtlMs input.campaignClass
    finishedAt := none }

def usage (ledger : CapacityLedger κ) (at_ : ℕ) (scope : String) : QuotaUsage :=
  let leases := ledger.leases.filter fun lease => lease.scope = scope
  let today := leases.filter fun lease => lease.day = utcDay at_
  { activeWorkers := ((leases.filter (·.isActive at_)).map (·.workers)).sum
    seedsToday := (today.map (·.chargedSeeds at_)).sum
    rpcCallsToday := (today.map (·.chargedRpcCalls at_)).sum
    storageBytes := (ledger.storage scope).getD 0 }

variable [DecidableEq κ]

/-- `Map.set`: an entry under the same key is replaced where it stands. -/
def setLease (leases : List (CampaignLease κ)) (lease : CampaignLease κ) : List (CampaignLease κ) :=
  if leases.any (·.campaignId = lease.campaignId) then replace (·.campaignId) lease leases else leases ++ [lease]

/-- The ledger's `admit`. -/
def admitLease (ledger : CapacityLedger κ) (at_ : ℕ) (input : AdmitInput κ) : CapacityLedger κ :=
  { ledger.prune at_ with leases := setLease (ledger.prune at_).leases (leaseFor at_ input) }

def report (ledger : CapacityLedger κ) (at_ : ℕ) (campaignId : κ) (report : UsageReport) :
    Option (CampaignLease κ) × CapacityLedger κ :=
  match get (·.campaignId) campaignId ledger.leases with
  | none => (none, ledger)
  | some lease =>
    let lease := lease.reported at_ report
    let storage := match report.storageBytes with
      | some bytes => Function.update ledger.storage lease.scope (some bytes)
      | none => ledger.storage
    (some lease, { leases := replace (·.campaignId) lease ledger.leases, storage })

end CapacityLedger

end CrashLab.UsageLedger
