import CrashLab.Capacity
import CrashLab.MachineInts

namespace CrashLab.QuotaAdmission

open Capacity MachineInts

inductive QuotaResource where
  | concurrentWorkers
  | seedsPerDay
  | storageBytes
  | rpcCallsPerDay
deriving DecidableEq, Repr

def QuotaResource.asStr : QuotaResource → String
  | .concurrentWorkers => "concurrent_workers"
  | .seedsPerDay => "seeds_per_day"
  | .storageBytes => "storage_bytes"
  | .rpcCallsPerDay => "rpc_calls_per_day"

structure QuotaLimits where
  concurrentWorkers : Option UInt64 := none
  seedsPerDay : Option UInt64 := none
  storageBytes : Option UInt64 := none
  rpcCallsPerDay : Option UInt64 := none
deriving DecidableEq, Repr

structure QuotaUsage where
  activeWorkers : UInt64 := 0
  seedsToday : UInt64 := 0
  storageBytes : UInt64 := 0
  rpcCallsToday : UInt64 := 0
deriving DecidableEq, Repr

structure ResourceRequest where
  cls : CampaignClass
  workers : UInt64
  seeds : UInt64
  rpcCalls : UInt64
deriving DecidableEq, Repr

structure QuotaViolation where
  resource : QuotaResource
  limit : ℕ
  used : UInt64
  requested : UInt64
deriving DecidableEq, Repr

def QuotaViolation.fmt (violation : QuotaViolation) : String :=
  "quota exceeded for " ++ violation.resource.asStr ++ ": used " ++ toString violation.used.toNat ++ " + requested " ++
    toString violation.requested.toNat ++ " > limit " ++ toString violation.limit

section Checks

structure Check where
  resource : QuotaResource
  limit : Option UInt64
  used : UInt64
  requested : UInt64
deriving DecidableEq, Repr

def checks (limits : QuotaLimits) (usage : QuotaUsage) (request : ResourceRequest) : List Check :=
  [⟨.concurrentWorkers, limits.concurrentWorkers, usage.activeWorkers, request.workers⟩,
    ⟨.seedsPerDay, limits.seedsPerDay, usage.seedsToday, request.seeds⟩,
    ⟨.rpcCallsPerDay, limits.rpcCallsPerDay, usage.rpcCallsToday, request.rpcCalls⟩]

def exceeded (cls : CampaignClass) (check : Check) : Option QuotaViolation :=
  check.limit.bind fun limit =>
    let limit := effectiveLimit limit.toNat cls
    if limit < saturatingAdd check.used.toNat check.requested.toNat then
      some ⟨check.resource, limit, check.used, check.requested⟩
    else none

def storageFull (limits : QuotaLimits) (usage : QuotaUsage) (cls : CampaignClass) : Option QuotaViolation :=
  limits.storageBytes.bind fun limit =>
    let limit := effectiveLimit limit.toNat cls
    if limit ≤ usage.storageBytes.toNat then some ⟨.storageBytes, limit, usage.storageBytes, 0⟩ else none

def checkAdmission (limits : QuotaLimits) (usage : QuotaUsage) (request : ResourceRequest) :
    Except QuotaViolation Unit :=
  match (checks limits usage request).findSome? (exceeded request.cls) with
  | some violation => .error violation
  | none =>
    match storageFull limits usage request.cls with
    | some violation => .error violation
    | none => .ok ()

end Checks

section Sums

variable {limits : QuotaLimits} {usage : QuotaUsage} {request : ResourceRequest} {cls : CampaignClass} {check : Check}

def Fits (cls : CampaignClass) (limit : Option UInt64) (used requested : UInt64) : Prop :=
  ∀ bound ∈ limit, used.toNat + requested.toNat ≤ effectiveLimit bound.toNat cls

def Within (limits : QuotaLimits) (usage : QuotaUsage) (request : ResourceRequest) : Prop :=
  (∀ check ∈ checks limits usage request, Fits request.cls check.limit check.used check.requested) ∧
    Fits request.cls limits.storageBytes usage.storageBytes 0

def Saturates (cls : CampaignClass) (check : Check) : Prop :=
  cls = .interactive ∧ check.limit = some 0xFFFFFFFFFFFFFFFF ∧ u64Max < check.used.toNat + check.requested.toNat

theorem effectiveLimit_eq_max_iff {limit : UInt64} :
    effectiveLimit limit.toNat cls = u64Max ↔ cls = .interactive ∧ limit = 0xFFFFFFFFFFFFFFFF := by
  have hlt := limit.toNat_lt
  have hlimit : limit = 0xFFFFFFFFFFFFFFFF ↔ limit.toNat = u64Max := by
    rw [← UInt64.toNat_inj]
    rfl
  rw [hlimit]
  have hmax : u64Max = 18446744073709551615 := rfl
  cases cls with
  | interactive => simp [effectiveLimit, reservedHeadroomBps]
  | nightly =>
    simp only [effectiveLimit, reservedHeadroomBps, reduceCtorEq, false_and, iff_false]
    omega
  | deep =>
    simp only [effectiveLimit, reservedHeadroomBps, reduceCtorEq, false_and, iff_false]
    omega

theorem lt_saturatingAdd_iff {n a b : ℕ} : n < saturatingAdd a b ↔ n < a + b ∧ n < u64Max := lt_min_iff

theorem exceeded_eq_none_iff :
    exceeded cls check = none ↔ Fits cls check.limit check.used check.requested ∨ Saturates cls check := by
  obtain ⟨resource, limit, used, requested⟩ := check
  cases limit with
  | none => simp [exceeded, Fits]
  | some limit =>
    have hbound : effectiveLimit limit.toNat cls ≤ u64Max :=
      (effectiveLimit_le limit.toNat cls).trans (Nat.le_pred_of_lt limit.toNat_lt)
    have hmax := @effectiveLimit_eq_max_iff cls limit
    have hnone : exceeded cls ⟨resource, some limit, used, requested⟩ = none ↔
        ¬effectiveLimit limit.toNat cls < saturatingAdd used.toNat requested.toNat := by
      simp [exceeded]
    simp only [hnone, lt_saturatingAdd_iff, Fits, Saturates, Option.mem_some_iff, forall_eq', Option.some.injEq,
      ← and_assoc, ← hmax]
    omega

theorem storageFull_eq_none_iff :
    storageFull limits usage cls = none ↔
      ∀ bound ∈ limits.storageBytes, usage.storageBytes.toNat < effectiveLimit bound.toNat cls := by
  cases h : limits.storageBytes with
  | none => simp [storageFull, h]
  | some limit => simp [storageFull, h]

theorem checkAdmission_ok_iff : checkAdmission limits usage request = .ok () ↔
    (∀ check ∈ checks limits usage request, exceeded request.cls check = none) ∧
      storageFull limits usage request.cls = none := by
  rw [← List.findSome?_eq_none_iff, checkAdmission]
  cases (checks limits usage request).findSome? (exceeded request.cls) with
  | some violation => simp
  | none =>
    cases storageFull limits usage request.cls with
    | some violation => simp
    | none => simp

end Sums

section Admission

def Over (cls : CampaignClass) (check : Check) : Prop :=
  ∃ bound ∈ check.limit, ¬(cls = .interactive ∧ bound = 0xFFFFFFFFFFFFFFFF) ∧
    effectiveLimit bound.toNat cls < check.used.toNat + check.requested.toNat

def Full (limits : QuotaLimits) (usage : QuotaUsage) (cls : CampaignClass) : Prop :=
  ∃ bound ∈ limits.storageBytes, effectiveLimit bound.toNat cls ≤ usage.storageBytes.toNat

theorem over_of_refused {cls : CampaignClass} {check : Check} (h : exceeded cls check ≠ none) : Over cls check := by
  rw [Ne, exceeded_eq_none_iff, not_or] at h
  obtain ⟨hfits, hsaturates⟩ := h
  unfold Fits at hfits
  push Not at hfits
  obtain ⟨bound, hbound, hlt⟩ := hfits
  refine ⟨bound, hbound, ?_, hlt⟩
  rintro ⟨rfl, rfl⟩
  exact hsaturates ⟨rfl, hbound, hlt⟩

theorem refused_of_over {cls : CampaignClass} {check : Check} (h : Over cls check) : exceeded cls check ≠ none := by
  obtain ⟨bound, hbound, hmax, hlt⟩ := h
  rw [Ne, exceeded_eq_none_iff]
  rintro (hfits | ⟨hcls, hlimit, -⟩)
  · exact absurd (hfits bound hbound) (not_le.mpr hlt)
  · rw [Option.mem_def, hlimit, Option.some.injEq] at hbound
    exact hmax ⟨hcls, hbound.symm⟩

theorem admission_within_iff (limits : QuotaLimits) (usage : QuotaUsage) (request : ResourceRequest) :
    (checkAdmission limits usage request = .ok () → Within limits usage request) ↔
      (∀ check ∈ checks limits usage request, ¬Saturates request.cls check) ∨
        (∃ check ∈ checks limits usage request, Over request.cls check) ∨ Full limits usage request.cls := by
  rw [checkAdmission_ok_iff, storageFull_eq_none_iff]
  constructor
  · intro h
    by_contra hcontra
    push Not at hcontra
    obtain ⟨⟨check, hmem, hsaturates⟩, hover, hfull⟩ := hcontra
    have hpasses : ∀ other ∈ checks limits usage request, exceeded request.cls other = none := by
      intro other hother
      by_contra hrefused
      exact hover other hother (over_of_refused hrefused)
    have hroom : ∀ bound ∈ limits.storageBytes, usage.storageBytes.toNat < effectiveLimit bound.toNat request.cls := by
      intro bound hbound
      by_contra hle
      exact hfull ⟨bound, hbound, not_lt.mp hle⟩
    obtain ⟨hcls, hlimit, hsum⟩ := hsaturates
    have hfits := (h ⟨hpasses, hroom⟩).1 check hmem _ hlimit
    have hle := effectiveLimit_le (0xFFFFFFFFFFFFFFFF : UInt64).toNat request.cls
    have hmax : (0xFFFFFFFFFFFFFFFF : UInt64).toNat = u64Max := rfl
    omega
  · rintro (hnone | ⟨check, hmem, hover⟩ | ⟨bound, hbound, hle⟩) ⟨hpasses, hroom⟩
    · constructor
      · intro check hmem
        exact (exceeded_eq_none_iff.mp (hpasses check hmem)).resolve_right (hnone check hmem)
      · intro bound hbound
        exact (hroom bound hbound).le
    · exact absurd (hpasses check hmem) (refused_of_over hover)
    · exact absurd (hroom bound hbound) (not_lt.mpr hle)

theorem largest_limit_overcommits : ¬∀ (limits : QuotaLimits) (usage : QuotaUsage) (request : ResourceRequest),
    checkAdmission limits usage request = .ok () → Within limits usage request := by
  intro h
  have hwithin := h { concurrentWorkers := some 0xFFFFFFFFFFFFFFFF } { activeWorkers := 0xFFFFFFFFFFFFFFFF }
    ⟨.interactive, 1, 0, 0⟩ (by decide)
  have hfits := hwithin.1 ⟨.concurrentWorkers, some 0xFFFFFFFFFFFFFFFF, 0xFFFFFFFFFFFFFFFF, 1⟩ (by decide) _ rfl
  revert hfits
  decide

end Admission

end CrashLab.QuotaAdmission
