import Mathlib.Tactic

namespace CrashLab.ShiftRegisters

variable {α : Type*}

def shift (poly register : ℕ) : ℕ :=
  if register &&& 1 ≠ 0 then (register >>> 1) ^^^ poly else register >>> 1

def feed (poly shifts register input : ℕ) : ℕ := (shift poly)^[shifts] (register ^^^ input)

def feedAll (poly shifts : ℕ) (value : α → ℕ) (register : ℕ) (inputs : List α) : ℕ :=
  inputs.foldl (fun register a => feed poly shifts register (value a)) register

/-- The polynomial has its top bit at `top`, so that the register has `top + 1` bits. -/
structure Reflected (poly top : ℕ) : Prop where
  lt : poly < 2 ^ (top + 1)
  bit : poly.testBit top = true

variable {poly top : ℕ}

theorem xor_cancel {a b c : ℕ} (h : a ^^^ c = b ^^^ c) : a = b := by
  have hback := congrArg (· ^^^ c) h
  simpa only [Nat.xor_assoc, Nat.xor_self, Nat.xor_zero] using hback

theorem half_lt {register : ℕ} (h : register < 2 ^ (top + 1)) : register >>> 1 < 2 ^ top := by
  rw [Nat.shiftRight_one]
  omega

theorem shift_lt (hp : Reflected poly top) {register : ℕ} (h : register < 2 ^ (top + 1)) :
    shift poly register < 2 ^ (top + 1) := by
  have hhalf : register >>> 1 < 2 ^ (top + 1) := (half_lt h).trans (by omega)
  unfold shift
  split_ifs
  · exact Nat.xor_lt_two_pow hhalf hp.lt
  · exact hhalf

theorem testBit_shift (hp : Reflected poly top) {register : ℕ} (h : register < 2 ^ (top + 1)) :
    (shift poly register).testBit top = decide (register &&& 1 ≠ 0) := by
  have hhalf : (register >>> 1).testBit top = false := Nat.testBit_lt_two_pow (half_lt h)
  unfold shift
  split_ifs with hodd
  · rw [Nat.testBit_xor, hhalf, hp.bit, decide_eq_true hodd, Bool.false_xor]
  · rw [hhalf, decide_eq_false hodd]

theorem shift_injective (hp : Reflected poly top) :
    Set.InjOn (shift poly) (Set.Iio (2 ^ (top + 1))) := by
  intro a ha b hb hab
  have hout : (a &&& 1 ≠ 0) ↔ (b &&& 1 ≠ 0) := by
    have hbits := testBit_shift hp ha
    rw [hab, testBit_shift hp hb] at hbits
    simpa using hbits.symm
  have hhalf : a >>> 1 = b >>> 1 := by
    unfold shift at hab
    split_ifs at hab with h₁ h₂ h₂
    · exact xor_cancel hab
    · exact absurd (hout.mp h₁) h₂
    · exact absurd (hout.mpr h₂) h₁
    · exact hab
  rw [Nat.and_one_is_mod, Nat.and_one_is_mod] at hout
  rw [Nat.shiftRight_one, Nat.shiftRight_one] at hhalf
  omega

theorem shifts_lt (hp : Reflected poly top) (n : ℕ) {register : ℕ} (h : register < 2 ^ (top + 1)) :
    (shift poly)^[n] register < 2 ^ (top + 1) := by
  induction n generalizing register with
  | zero => exact h
  | succ n ih => exact ih (shift_lt hp h)

theorem feed_lt (hp : Reflected poly top) (shifts : ℕ) {register input : ℕ}
    (h : register < 2 ^ (top + 1)) (hi : input < 2 ^ (top + 1)) :
    feed poly shifts register input < 2 ^ (top + 1) :=
  shifts_lt hp shifts (Nat.xor_lt_two_pow h hi)

theorem xor_eq_of_feed_eq (hp : Reflected poly top) {shifts r s x y : ℕ} (hr : r < 2 ^ (top + 1))
    (hs : s < 2 ^ (top + 1)) (hx : x < 2 ^ (top + 1)) (hy : y < 2 ^ (top + 1))
    (h : feed poly shifts r x = feed poly shifts s y) : r ^^^ x = s ^^^ y :=
  ((shift_injective hp).iterate (fun _ => shift_lt hp) shifts) (Nat.xor_lt_two_pow hr hx)
    (Nat.xor_lt_two_pow hs hy) h

theorem feedAll_lt (hp : Reflected poly top) (shifts : ℕ) {value : α → ℕ}
    (hv : ∀ a, value a < 2 ^ (top + 1)) (inputs : List α) {register : ℕ} (h : register < 2 ^ (top + 1)) :
    feedAll poly shifts value register inputs < 2 ^ (top + 1) := by
  induction inputs generalizing register with
  | nil => exact h
  | cons a inputs ih => exact ih (feed_lt hp shifts h (hv a))

theorem feedAll_injective (hp : Reflected poly top) (shifts : ℕ) {value : α → ℕ}
    (hv : ∀ a, value a < 2 ^ (top + 1)) (inputs : List α) {r s : ℕ} (hr : r < 2 ^ (top + 1))
    (hs : s < 2 ^ (top + 1))
    (h : feedAll poly shifts value r inputs = feedAll poly shifts value s inputs) : r = s := by
  induction inputs generalizing r s with
  | nil => exact h
  | cons a inputs ih =>
    have hfed := ih (feed_lt hp shifts hr (hv a)) (feed_lt hp shifts hs (hv a)) h
    exact xor_cancel (xor_eq_of_feed_eq hp hr hs (hv a) (hv a) hfed)

theorem feedAll_append (poly shifts : ℕ) (value : α → ℕ) (register : ℕ) (before after : List α) :
    feedAll poly shifts value register (before ++ after) =
      feedAll poly shifts value (feedAll poly shifts value register before) after := List.foldl_append

theorem feedAll_ne (hp : Reflected poly top) (shifts : ℕ) {value : α → ℕ}
    (hv : ∀ a, value a < 2 ^ (top + 1)) {register : ℕ} (hr : register < 2 ^ (top + 1))
    (before after : List α) {x y : α} (hxy : value x ≠ value y) :
    feedAll poly shifts value register (before ++ x :: after) ≠
      feedAll poly shifts value register (before ++ y :: after) := by
  intro h
  have hb := feedAll_lt hp shifts hv before hr
  rw [feedAll_append, feedAll_append] at h
  have hfed := feedAll_injective hp shifts hv after (feed_lt hp shifts hb (hv x))
    (feed_lt hp shifts hb (hv y)) h
  have hxor := xor_eq_of_feed_eq hp hb hb (hv x) (hv y) hfed
  rw [Nat.xor_comm _ (value x), Nat.xor_comm _ (value y)] at hxor
  exact hxy (xor_cancel hxor)

section Evaluation

/-- `feedAll`, with the register reduced to a numeral before every input. -/
def feedForced (poly shifts : ℕ) (value : α → ℕ) : ℕ → List α → ℕ
  | register, [] => register
  | 0, a :: inputs => feedForced poly shifts value (feed poly shifts 0 (value a)) inputs
  | register + 1, a :: inputs =>
    feedForced poly shifts value (feed poly shifts (register + 1) (value a)) inputs

theorem feedAll_eq_feedForced (poly shifts : ℕ) (value : α → ℕ) (register : ℕ) (inputs : List α) :
    feedAll poly shifts value register inputs = feedForced poly shifts value register inputs := by
  induction inputs generalizing register with
  | nil => cases register <;> rfl
  | cons a inputs ih =>
    have hstep : feedAll poly shifts value register (a :: inputs) =
        feedAll poly shifts value (feed poly shifts register (value a)) inputs := rfl
    rw [hstep, ih]
    cases register <;> rfl

end Evaluation

end CrashLab.ShiftRegisters
