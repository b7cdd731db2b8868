import Mathlib.Tactic

namespace CrashLab.MachineInts

/-! Unsigned machine integers are natural numbers; the operations below say where the width shows. -/

def u64Max : ℕ := 2 ^ 64 - 1

/-- `usize` of a 64-bit target. -/
def usizeMax : ℕ := 2 ^ 64 - 1

def asU32 (n : ℕ) : ℕ := n % 2 ^ 32

def saturatingAdd (a b : ℕ) : ℕ := min (a + b) u64Max

def checkedAdd (a b : ℕ) : Option ℕ := if a + b ≤ u64Max then some (a + b) else none

/-- The eight bytes of a `u64`, the lowest first. -/
def toLeBytes (n : ℕ) : List UInt8 := (List.range 8).map fun i => UInt8.ofNat (n / 256 ^ i)

theorem asU32_of_lt {n : ℕ} (h : n < 2 ^ 32) : asU32 n = n := Nat.mod_eq_of_lt h

theorem lt_saturatingAdd {a b : ℕ} (ha : a < u64Max) (hb : 0 < b) : a < saturatingAdd a b := by
  rw [saturatingAdd]
  omega

theorem checkedAdd_eq_some {a b c : ℕ} (h : checkedAdd a b = some c) : c = a + b := by
  unfold checkedAdd at h
  split_ifs at h
  exact (Option.some_inj.mp h).symm

end CrashLab.MachineInts
