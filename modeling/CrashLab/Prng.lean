import Mathlib.Data.Nat.Notation
import Mathlib.Tactic

namespace CrashLab.Prng

structure SeededPrng where
  state : UInt64
deriving DecidableEq, Repr

namespace SeededPrng

def new (seedId : UInt64) : SeededPrng := ⟨(seedId + 1) * 0x9E3779B97F4A7C15⟩

def nextU64 (rng : SeededPrng) : UInt64 × SeededPrng :=
  let x := rng.state ^^^ (rng.state >>> 12)
  let x := x ^^^ (x <<< 25)
  let x := x ^^^ (x >>> 27)
  (x * 0x2545F4914F6CDD1D, ⟨x⟩)

end SeededPrng

section Words

theorem mul_eq_zero_iff_of_inverse {x c d : UInt64} (h : c * d = 1) : x * c = 0 ↔ x = 0 := by
  constructor
  · intro hx
    calc x = x * (c * d) := by rw [h, UInt64.mul_one]
      _ = x * c * d := (UInt64.mul_assoc x c d).symm
      _ = 0 := by rw [hx, UInt64.zero_mul]
  · rintro rfl
    exact UInt64.zero_mul

theorem xor_shiftRight_eq_zero_iff {x k : UInt64} (hk : 0 < k.toNat % 64) : x ^^^ (x >>> k) = 0 ↔ x = 0 := by
  rw [UInt64.xor_eq_zero_iff]
  constructor
  · intro h
    have hnat : x.toNat = x.toNat / 2 ^ (k.toNat % 64) := by
      conv_lhs => rw [h, UInt64.toNat_shiftRight, Nat.shiftRight_eq_div_pow]
    by_contra hx
    have hpos : 0 < x.toNat := Nat.pos_of_ne_zero fun hzero => hx (UInt64.toNat_inj.mp hzero)
    have hlt := Nat.div_lt_self hpos (Nat.one_lt_two_pow hk.ne')
    omega
  · rintro rfl
    simp

theorem shiftLeft_eq_mul (x : UInt64) : x <<< 25 = x * 0x2000000 := by
  apply UInt64.toNat_inj.mp
  rw [UInt64.toNat_shiftLeft, UInt64.toNat_mul]
  simp [Nat.shiftLeft_eq]

theorem xor_shiftLeft_eq_zero_iff (x : UInt64) : x ^^^ (x <<< 25) = 0 ↔ x = 0 := by
  rw [UInt64.xor_eq_zero_iff, shiftLeft_eq_mul]
  constructor
  · intro h
    have hinverse : (1 - 0x2000000 : UInt64) * 0x0004000002000001 = 1 := by decide
    apply (mul_eq_zero_iff_of_inverse hinverse).mp
    grind
  · rintro rfl
    exact UInt64.zero_mul.symm

end Words

namespace SeededPrng

def advance (rng : SeededPrng) : ℕ → SeededPrng
  | 0 => rng
  | n + 1 => (rng.advance n).nextU64.2

def stream (rng : SeededPrng) (n : ℕ) : UInt64 := (rng.advance n).nextU64.1

theorem state_nextU64_eq_zero_iff (rng : SeededPrng) : rng.nextU64.2.state = 0 ↔ rng.state = 0 := by
  unfold nextU64
  dsimp only
  rw [xor_shiftRight_eq_zero_iff (by decide), xor_shiftLeft_eq_zero_iff, xor_shiftRight_eq_zero_iff (by decide)]

theorem nextU64_eq_zero_iff (rng : SeededPrng) : rng.nextU64.1 = 0 ↔ rng.nextU64.2.state = 0 := by
  have hinverse : (0x2545F4914F6CDD1D : UInt64) * 0x59071D96D81ECD35 = 1 := by decide
  exact mul_eq_zero_iff_of_inverse hinverse

theorem state_new_eq_zero_iff (seedId : UInt64) : (new seedId).state = 0 ↔ seedId = 0xFFFFFFFFFFFFFFFF := by
  have hinverse : (0x9E3779B97F4A7C15 : UInt64) * 0xF1DE83E19937733D = 1 := by decide
  rw [new, mul_eq_zero_iff_of_inverse hinverse]
  constructor
  · intro h
    calc seedId = seedId + 1 - 1 := (UInt64.add_sub_cancel seedId 1).symm
      _ = 0xFFFFFFFFFFFFFFFF := by rw [h]; rfl
  · rintro rfl
    rfl

theorem state_advance_eq_zero_iff (rng : SeededPrng) (n : ℕ) : (rng.advance n).state = 0 ↔ rng.state = 0 := by
  induction n with
  | zero => rfl
  | succ n ih => rw [advance, state_nextU64_eq_zero_iff, ih]

theorem stream_eq_zero_iff (rng : SeededPrng) (n : ℕ) : rng.stream n = 0 ↔ rng.state = 0 := by
  rw [stream, nextU64_eq_zero_iff, state_nextU64_eq_zero_iff, state_advance_eq_zero_iff]

theorem never_degenerates_iff (seedId : UInt64) :
    ((∀ n, ((new seedId).advance n).state ≠ 0) ∧ ∃ n, (new seedId).stream n ≠ 0) ↔ seedId ≠ 0xFFFFFFFFFFFFFFFF := by
  simp only [Ne, state_advance_eq_zero_iff, stream_eq_zero_iff, state_new_eq_zero_iff]
  constructor
  · rintro ⟨-, _, h⟩
    exact h
  · intro h
    exact ⟨fun _ => h, 0, h⟩

theorem last_seed_degenerates : ¬∀ seedId : UInt64,
    (∀ n, ((new seedId).advance n).state ≠ 0) ∧ ∃ n, (new seedId).stream n ≠ 0 := by
  intro h
  exact (h 0xFFFFFFFFFFFFFFFF).1 0 (by decide)

end SeededPrng

end CrashLab.Prng
