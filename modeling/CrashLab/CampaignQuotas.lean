import CrashLab.Capacity
import CrashLab.Doubles

namespace CrashLab.CampaignQuotas

open Capacity Doubles

section Windows

structure SchedulingWindow where
  startMinute : ℕ
  endMinute : ℕ
deriving DecidableEq, Repr

structure SchedulingWindows where
  nightly : Option SchedulingWindow := none
  deep : Option SchedulingWindow := none
deriving DecidableEq, Repr

def minutesPerDay : ℕ := 24 * 60

def windowFor (windows : SchedulingWindows) : CampaignClass → Option SchedulingWindow
  | .interactive => none
  | .nightly => windows.nightly
  | .deep => windows.deep

def minuteOfDay (now : ℕ) : ℕ := now / 60000 % minutesPerDay

def contains (window : SchedulingWindow) (minute : ℕ) : Bool :=
  if window.startMinute < window.endMinute then window.startMinute ≤ minute && minute < window.endMinute
  else window.startMinute ≤ minute || minute < window.endMinute

def isWindowOpen (windows : SchedulingWindows) (campaignClass : CampaignClass) (now : ℕ) : Bool :=
  (windowFor windows campaignClass).all fun window => contains window (minuteOfDay now)

def secondsUntilWindowOpens (windows : SchedulingWindows) (campaignClass : CampaignClass) (now : ℕ) : ℕ :=
  match windowFor windows campaignClass with
  | none => 0
  | some window =>
    if contains window (minuteOfDay now) then 0
    else
      let minutesAhead := (window.startMinute + minutesPerDay - minuteOfDay now) % minutesPerDay
      max (minutesAhead * 60 - now / 1000 % 60) 1

end Windows

def campaignClassPriority : CampaignClass → ℕ
  | .interactive => 0
  | .nightly => 1
  | .deep => 2

def defaultSeedsByClass : CampaignClass → ℕ
  | .interactive => 1000
  | .nightly => 100000
  | .deep => 10000000

def defaultQuotaScope : String := "global"

inductive QuotaResource where
  | concurrentWorkers
  | seedsPerDay
  | rpcCallsPerDay
  | storageBytes
deriving DecidableEq, Repr

def QuotaResource.name : QuotaResource → String
  | concurrentWorkers => "concurrent_workers"
  | seedsPerDay => "seeds_per_day"
  | rpcCallsPerDay => "rpc_calls_per_day"
  | storageBytes => "storage_bytes"

structure QuotaLimits where
  concurrentWorkers : Option ℕ := none
  seedsPerDay : Option ℕ := none
  rpcCallsPerDay : Option ℕ := none
  storageBytes : Option ℕ := none
deriving DecidableEq, Repr

structure QuotaUsage where
  activeWorkers : ℕ
  seedsToday : ℕ
  rpcCallsToday : ℕ
  storageBytes : ℕ
deriving DecidableEq, Repr

structure ResourceRequest where
  campaignClass : CampaignClass
  workers : ℕ
  seeds : ℕ
  rpcCalls : ℕ
deriving DecidableEq, Repr

structure QuotaViolation where
  resource : QuotaResource
  limit : ℕ
  used : ℕ
  requested : ℕ
deriving DecidableEq, Repr

inductive AdmissionDecision where
  | ok
  | rejected (violation : QuotaViolation) (retryAfterSeconds : Option ℕ)
deriving DecidableEq, Repr

def reservedShare (limit : ℕ) (campaignClass : CampaignClass) : ℕ :=
  ⌊toDouble (toDouble (limit * reservedHeadroomBps campaignClass : ℕ) / 10000)⌋₊

def effectiveLimit (limit : ℕ) (campaignClass : CampaignClass) : ℕ := limit - reservedShare limit campaignClass

theorem effectiveLimit_le (limit : ℕ) (campaignClass : CampaignClass) : effectiveLimit limit campaignClass ≤ limit :=
  Nat.sub_le _ _

def campaignClassForPreset (preset : String) : Option CampaignClass :=
  if preset = "smoke" then some .interactive
  else if preset = "nightly" then some .nightly
  else if preset = "deep" then some .deep
  else none

def dayMs : ℕ := 86400000

def secondsUntilNextUtcDay (now : ℕ) : ℕ :=
  let next := (now / dayMs + 1) * dayMs
  max ((next - now + 999) / 1000) 1

def workerRetrySeconds : ℕ := 60

/-- One row of the table `checkAdmission` walks. -/
structure QuotaCheck where
  resource : QuotaResource
  rawLimit : Option ℕ
  used : ℕ
  requested : ℕ
  retryAfterSeconds : Option ℕ

def QuotaCheck.violation (check : QuotaCheck) (campaignClass : CampaignClass) : Option QuotaViolation := do
  let limit := effectiveLimit (← check.rawLimit) campaignClass
  if limit < check.used + check.requested then some ⟨check.resource, limit, check.used, check.requested⟩ else none

def admissionChecks (limits : QuotaLimits) (usage : QuotaUsage) (request : ResourceRequest) (now : ℕ) :
    List QuotaCheck :=
  [⟨.concurrentWorkers, limits.concurrentWorkers, usage.activeWorkers, request.workers, some workerRetrySeconds⟩,
    ⟨.seedsPerDay, limits.seedsPerDay, usage.seedsToday, request.seeds, some (secondsUntilNextUtcDay now)⟩,
    ⟨.rpcCallsPerDay, limits.rpcCallsPerDay, usage.rpcCallsToday, request.rpcCalls,
      some (secondsUntilNextUtcDay now)⟩]

def storageViolation (limits : QuotaLimits) (usage : QuotaUsage) (request : ResourceRequest) :
    Option QuotaViolation := do
  let limit := effectiveLimit (← limits.storageBytes) request.campaignClass
  if limit ≤ usage.storageBytes then some ⟨.storageBytes, limit, usage.storageBytes, 0⟩ else none

def firstViolation (limits : QuotaLimits) (usage : QuotaUsage) (request : ResourceRequest) (now : ℕ) :
    Option (QuotaViolation × Option ℕ) :=
  (admissionChecks limits usage request now).findSome? fun check =>
    (check.violation request.campaignClass).map fun violation => (violation, check.retryAfterSeconds)

def checkAdmission (limits : QuotaLimits) (usage : QuotaUsage) (request : ResourceRequest) (now : ℕ) :
    AdmissionDecision :=
  match firstViolation limits usage request now with
  | some (violation, retryAfterSeconds) => .rejected violation retryAfterSeconds
  | none =>
    match storageViolation limits usage request with
    | some violation => .rejected violation none
    | none => .ok

theorem checkAdmission_ok {limits : QuotaLimits} {usage : QuotaUsage} {request : ResourceRequest} {now : ℕ}
    (h : checkAdmission limits usage request now = .ok) :
    (∀ limit, limits.concurrentWorkers = some limit → usage.activeWorkers + request.workers ≤ limit) ∧
      ∀ limit, limits.seedsPerDay = some limit → usage.seedsToday + request.seeds ≤ limit := by
  have hnone : ∀ check ∈ admissionChecks limits usage request now,
      check.violation request.campaignClass = none := by
    intro check hcheck
    cases hfailed : firstViolation limits usage request now with
    | some failed =>
      rw [checkAdmission, hfailed] at h
      cases h
    | none =>
      have := List.findSome?_eq_none_iff.mp hfailed check hcheck
      rwa [Option.map_eq_none_iff] at this
  have hfits : ∀ check ∈ admissionChecks limits usage request now, ∀ limit, check.rawLimit = some limit →
      check.used + check.requested ≤ limit := by
    intro check hcheck limit hlimit
    have := hnone check hcheck
    simp only [QuotaCheck.violation, hlimit, Option.bind_eq_bind, Option.bind_some] at this
    split_ifs at this with hover
    exact (not_lt.mp hover).trans (effectiveLimit_le limit _)
  simp only [admissionChecks, List.forall_mem_cons] at hfits
  exact ⟨hfits.1, hfits.2.1⟩

end CrashLab.CampaignQuotas
