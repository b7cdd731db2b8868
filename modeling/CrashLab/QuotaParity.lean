import CrashLab.CampaignQuotas
import CrashLab.QuotaAdmission
import CrashLab.QuotaContention

namespace CrashLab.QuotaParity

open Capacity Doubles
open CampaignQuotas (reservedShare)

section Guard

def alone (allowance remaining : ℕ) (acts : List Act) : Option (Caller × Pool) :=
  acts.foldlM (fun s act => admitSeed allowance act s.1 s.2) (.idle, ⟨remaining, []⟩)

def Admits (allowance remaining : ℕ) (cls : CampaignClass) (decision : ThrottleDecision) : Prop :=
  ∃ (iterations : List Bool) (left : ℕ),
    alone allowance remaining (.call cls :: iterations.map .iterate) = some (.idle, ⟨left, [(cls, decision)]⟩)

theorem alone_call (allowance remaining : ℕ) (cls : CampaignClass) (acts : List Act) :
    alone allowance remaining (.call cls :: acts) = acts.foldlM (fun s act => admitSeed allowance act s.1 s.2)
      (.loop cls (reservedFor allowance cls) remaining, ⟨remaining, []⟩) := rfl

theorem admits_proceed_iff (allowance remaining : ℕ) (cls : CampaignClass) :
    Admits allowance remaining cls .proceed ↔ reservedFor allowance cls < remaining := by
  constructor
  · rintro ⟨iterations, left, hrun⟩
    rw [alone_call] at hrun
    by_contra hle
    rw [not_lt] at hle
    cases iterations with
    | nil => cases hrun
    | cons spurious iterations =>
      have hstep : admitSeed allowance (.iterate spurious) (.loop cls (reservedFor allowance cls) remaining)
          ⟨remaining, []⟩ = some (.idle, ⟨remaining, [(cls, .throttled remaining (reservedFor allowance cls))]⟩) := by
        rw [admitSeed, if_pos hle]
        rfl
      rw [List.map_cons, List.foldlM_cons, hstep] at hrun
      cases iterations with
      | nil => cases hrun
      | cons again iterations => cases hrun
  · intro hlt
    refine ⟨[false], remaining - 1, ?_⟩
    rw [alone_call]
    simp [admitSeed, compareExchangeWeak, Nat.not_le.mpr hlt, Pool.record]

end Guard

section Checks

def rustLimits (limit : UInt64) : QuotaAdmission.QuotaLimits := { seedsPerDay := some limit }

def tsLimits (limit : ℕ) : CampaignQuotas.QuotaLimits := { seedsPerDay := some limit }

theorem rust_ok_iff {limit : UInt64} {usage : QuotaAdmission.QuotaUsage} {request : QuotaAdmission.ResourceRequest}
    (hlimit : limit.toNat < 2 ^ 53) : QuotaAdmission.checkAdmission (rustLimits limit) usage request = .ok () ↔
      usage.seedsToday.toNat + request.seeds.toNat ≤ Capacity.effectiveLimit limit.toNat request.cls := by
  have hsmall : limit ≠ 0xFFFFFFFFFFFFFFFF := by
    rintro rfl
    revert hlimit
    decide
  rw [QuotaAdmission.checkAdmission_ok_iff, QuotaAdmission.storageFull_eq_none_iff]
  simp [QuotaAdmission.checks, QuotaAdmission.exceeded_eq_none_iff, QuotaAdmission.Fits, QuotaAdmission.Saturates,
    rustLimits, hsmall]

theorem ts_ok_iff {limit : ℕ} {usage : CampaignQuotas.QuotaUsage} {request : CampaignQuotas.ResourceRequest} {now : ℕ} :
    CampaignQuotas.checkAdmission (tsLimits limit) usage request now = .ok ↔
      usage.seedsToday + request.seeds ≤ CampaignQuotas.effectiveLimit limit request.campaignClass := by
  by_cases hover : CampaignQuotas.effectiveLimit limit request.campaignClass < usage.seedsToday + request.seeds
  · apply iff_of_false _ (Nat.not_le.mpr hover)
    simp [CampaignQuotas.checkAdmission, CampaignQuotas.firstViolation, CampaignQuotas.admissionChecks, tsLimits,
      CampaignQuotas.QuotaCheck.violation, hover]
  · apply iff_of_true _ (Nat.not_lt.mp hover)
    simp [CampaignQuotas.checkAdmission, CampaignQuotas.firstViolation, CampaignQuotas.admissionChecks, tsLimits,
      CampaignQuotas.QuotaCheck.violation, hover, CampaignQuotas.storageViolation]

end Checks

section Shares

theorem reservedShare_exact {limit : ℕ} {cls : CampaignClass} (h : limit * reservedHeadroomBps cls < 2 ^ 53) :
    reservedShare limit cls = limit * reservedHeadroomBps cls / 10000 := by
  have hfloor := floor_toDouble_div h (by decide : 0 < 10000)
  rw [reservedShare, toDouble_natCast h, ← Int.floor_toNat]
  rw [Nat.cast_ofNat] at hfloor
  rw [hfloor, Int.toNat_natCast]

theorem reservedShare_near {limit : ℕ} (cls : CampaignClass) (h : limit < 2 ^ 53) :
    reservedShare limit cls ≤ limit * reservedHeadroomBps cls / 10000 + 1 ∧
      limit * reservedHeadroomBps cls / 10000 ≤ reservedShare limit cls + 1 := by
  have hbps : reservedHeadroomBps cls ≤ 2500 := by cases cls <;> decide
  have hproduct : limit * reservedHeadroomBps cls ≤ 2 ^ 53 * 2500 := Nat.mul_le_mul h.le hbps
  rw [reservedShare]
  generalize limit * reservedHeadroomBps cls = product at hproduct
  have hproduct' : (product : ℚ) ≤ 2 ^ 53 * 2500 := by exact_mod_cast hproduct
  have hnonneg : (0 : ℚ) ≤ product := Nat.cast_nonneg _
  have hlow : ((product / 10000 : ℕ) : ℚ) * 10000 ≤ product := by exact_mod_cast Nat.div_mul_le_self product 10000
  have hhigh : (product : ℚ) < ((product / 10000 : ℕ) + 1) * 10000 := by
    have hnat : product < (product / 10000 + 1) * 10000 := by omega
    exact_mod_cast hnat
  have hpart : (2 : ℚ) ^ (-53 : ℤ) = 1 / 2 ^ 53 := by norm_num
  -- both roundings together move the quotient by less than one
  have hfirst := abs_toDouble_sub_le product
  rw [hpart, abs_of_nonneg hnonneg, abs_le] at hfirst
  generalize toDouble product = rounded at hfirst
  have hrounded : 0 ≤ rounded / 10000 := by linarith [hfirst.1]
  have hsecond := abs_toDouble_sub_le (rounded / 10000)
  rw [hpart, abs_of_nonneg hrounded, abs_le] at hsecond
  generalize toDouble (rounded / 10000) = quotient at hsecond
  have habove : quotient < (product / 10000 : ℕ) + 2 := by linarith [hfirst.2, hsecond.2]
  have hbelow : ((product / 10000 : ℕ) : ℚ) < quotient + 1 := by linarith [hfirst.1, hsecond.1]
  constructor
  · apply Nat.lt_succ_iff.mp
    rw [Nat.floor_lt' (Nat.succ_ne_zero _)]
    push_cast
    linarith
  · have hfloor := Nat.lt_floor_add_one quotient
    have hlt : ((product / 10000 : ℕ) : ℚ) < ((⌊quotient⌋₊ + 2 : ℕ) : ℚ) := by
      push_cast
      linarith
    exact Nat.lt_succ_iff.mp (by exact_mod_cast hlt)

end Shares

section Parity

/-- The doubles give the share of the integers, or one more or less, and then what is left of the limit is not the
number that lies between the two. -/
def RoundedAway (limit used : ℕ) (cls : CampaignClass) : Prop :=
  let share := limit * reservedHeadroomBps cls / 10000
  (reservedShare limit cls = share + 1 → limit - used ≠ share + 1) ∧
    (reservedShare limit cls + 1 = share → limit - used ≠ share)

/-- A guard, the admission of the engine and that of the API let in one more seed alike. -/
def Alike (limit used : UInt64) (cls : CampaignClass) : Prop :=
  ∀ (rustUsage : QuotaAdmission.QuotaUsage) (tsUsage : CampaignQuotas.QuotaUsage) (workers rpcCalls : UInt64)
    (tsWorkers tsRpcCalls now : ℕ), rustUsage.seedsToday = used → tsUsage.seedsToday = used.toNat →
      (Admits limit.toNat (limit.toNat - used.toNat) cls .proceed ↔
        QuotaAdmission.checkAdmission (rustLimits limit) rustUsage ⟨cls, workers, 1, rpcCalls⟩ = .ok ()) ∧
      (QuotaAdmission.checkAdmission (rustLimits limit) rustUsage ⟨cls, workers, 1, rpcCalls⟩ = .ok () ↔
        CampaignQuotas.checkAdmission (tsLimits limit.toNat) tsUsage ⟨cls, tsWorkers, 1, tsRpcCalls⟩ now = .ok)

theorem roundedAway_of_exact {limit : ℕ} (used : ℕ) {cls : CampaignClass}
    (h : limit * reservedHeadroomBps cls < 2 ^ 53) : RoundedAway limit used cls := by
  have hshare := reservedShare_exact h
  unfold RoundedAway
  dsimp only
  omega

theorem alike_iff {limit used : UInt64} {cls : CampaignClass} (hlimit : limit.toNat < 2 ^ 53)
    (hused : used.toNat ≤ limit.toNat) : Alike limit used cls ↔ RoundedAway limit.toNat used.toNat cls := by
  have hshare := reserved_le limit.toNat cls
  have hnear := reservedShare_near cls hlimit
  have hone : (1 : UInt64).toNat = 1 := rfl
  have hguard : Admits limit.toNat (limit.toNat - used.toNat) cls .proceed ↔
      limit.toNat * reservedHeadroomBps cls / 10000 < limit.toNat - used.toNat := by
    rw [admits_proceed_iff, reservedFor_eq]
  have halike (rustUsage : QuotaAdmission.QuotaUsage) (tsUsage : CampaignQuotas.QuotaUsage)
      (workers rpcCalls : UInt64) (tsWorkers tsRpcCalls now : ℕ) (hrust : rustUsage.seedsToday = used)
      (hts : tsUsage.seedsToday = used.toNat) :
      ((Admits limit.toNat (limit.toNat - used.toNat) cls .proceed ↔
        QuotaAdmission.checkAdmission (rustLimits limit) rustUsage ⟨cls, workers, 1, rpcCalls⟩ = .ok ()) ∧
      (QuotaAdmission.checkAdmission (rustLimits limit) rustUsage ⟨cls, workers, 1, rpcCalls⟩ = .ok () ↔
        CampaignQuotas.checkAdmission (tsLimits limit.toNat) tsUsage ⟨cls, tsWorkers, 1, tsRpcCalls⟩ now = .ok)) ↔
        RoundedAway limit.toNat used.toNat cls := by
    rw [hguard, rust_ok_iff hlimit, ts_ok_iff, hrust, hts, hone, Capacity.effectiveLimit,
      CampaignQuotas.effectiveLimit, RoundedAway]
    dsimp only
    omega
  constructor
  · intro h
    exact (halike _ _ _ _ _ _ _ rfl rfl).mp (h { seedsToday := used } ⟨0, used.toNat, 0, 0⟩ 0 0 0 0 0 rfl rfl)
  · intro h rustUsage tsUsage workers rpcCalls tsWorkers tsRpcCalls now hrust hts
    exact (halike rustUsage tsUsage workers rpcCalls tsWorkers tsRpcCalls now hrust hts).mpr h

theorem quotas_alike_iff (limit used : UInt64) (cls : CampaignClass) (hlimit : limit.toNat < 2 ^ 53)
    (hused : used.toNat ≤ limit.toNat) :
    (Alike limit used cls ↔ RoundedAway limit.toNat used.toNat cls) ∧
      (limit.toNat * reservedHeadroomBps cls < 2 ^ 53 → Alike limit used cls) :=
  ⟨alike_iff hlimit hused, fun hexact => (alike_iff hlimit hused).mpr (roundedAway_of_exact _ hexact)⟩

theorem quotas_alike_hundred : Alike 100 89 .nightly :=
  (quotas_alike_iff 100 89 .nightly (by decide) (by decide)).2 (by decide)

theorem reservedShare_rounded_down : reservedShare 57780375177156 .deep = 14445093794288 := by decide +kernel

theorem quotas_differ : ¬Alike 57780375177156 43335281382867 .deep := by
  -- the doubles reserve a seed less, so that the API lets in a deep campaign that the engine throttles
  intro halike
  have hsecond := (halike { seedsToday := 43335281382867 } ⟨0, 43335281382867, 0, 0⟩ 0 0 0 0 0 rfl rfl).2
  rw [rust_ok_iff (by decide), ts_ok_iff, Capacity.effectiveLimit, CampaignQuotas.effectiveLimit] at hsecond
  have hlimit : (57780375177156 : UInt64).toNat = 57780375177156 := rfl
  rw [hlimit, reservedShare_rounded_down] at hsecond
  revert hsecond
  decide +kernel

end Parity

end CrashLab.QuotaParity
