import CrashLab.Histories

namespace CrashLab.Capacity

inductive CampaignClass where
  | interactive
  | nightly
  | deep
deriving DecidableEq, Repr

open CampaignClass

def reservedHeadroomBps : CampaignClass → ℕ
  | interactive => 0
  | nightly => 1000
  | deep => 2500

def effectiveLimit (limit : ℕ) (cls : CampaignClass) : ℕ :=
  let reserved := limit * reservedHeadroomBps cls / 10000
  limit - reserved

inductive ThrottleDecision where
  | proceed
  | throttled (remaining reserved : ℕ)
deriving DecidableEq, Repr

theorem reserved_le (limit : ℕ) (cls : CampaignClass) :
    limit * reservedHeadroomBps cls / 10000 ≤ limit := by
  have hbps : reservedHeadroomBps cls ≤ 10000 := by cases cls <;> decide
  calc limit * reservedHeadroomBps cls / 10000
      ≤ limit * 10000 / 10000 := Nat.div_le_div_right (Nat.mul_le_mul_left limit hbps)
    _ = limit := Nat.mul_div_cancel limit (by decide)

theorem effectiveLimit_le (limit : ℕ) (cls : CampaignClass) : effectiveLimit limit cls ≤ limit :=
  Nat.sub_le _ _

def reservedFor (allowance : ℕ) (cls : CampaignClass) : ℕ := allowance - effectiveLimit allowance cls

theorem reservedFor_eq (allowance : ℕ) (cls : CampaignClass) :
    reservedFor allowance cls = allowance * reservedHeadroomBps cls / 10000 := by
  have := reserved_le allowance cls
  rw [reservedFor, effectiveLimit]
  omega

def Yields (other cls : CampaignClass) : Prop := reservedHeadroomBps other ≤ reservedHeadroomBps cls

instance (other cls : CampaignClass) : Decidable (Yields other cls) :=
  inferInstanceAs (Decidable (_ ≤ _))

theorem reservedFor_mono (allowance : ℕ) {other cls : CampaignClass} (h : Yields other cls) :
    reservedFor allowance other ≤ reservedFor allowance cls := by
  rw [reservedFor_eq, reservedFor_eq]
  exact Nat.div_le_div_right (Nat.mul_le_mul_left allowance h)

end CrashLab.Capacity
