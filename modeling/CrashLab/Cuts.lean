import Mathlib.Tactic

namespace CrashLab.Cuts

/-! A nondecreasing sequence of cut points splits `cut 0 .. cut n` into `n` contiguous parts. -/

section Monotone

variable {cut : ℕ → ℕ} (mono : Monotone cut)
include mono

theorem part_unique {slot v w : ℕ} (hv : cut v ≤ slot ∧ slot < cut (v + 1))
    (hw : cut w ≤ slot ∧ slot < cut (w + 1)) : v = w := by
  rcases lt_trichotomy v w with h | h | h
  · have := mono (show v + 1 ≤ w by omega)
    omega
  · exact h
  · have := mono (show w + 1 ≤ v by omega)
    omega

theorem parts_disjoint {v w : ℕ} (h : v ≠ w) :
    cut (v + 1) ≤ cut w ∨ cut (w + 1) ≤ cut v := by
  rcases Nat.lt_or_gt_of_ne h with h | h
  · exact Or.inl (mono (by omega))
  · exact Or.inr (mono (by omega))

omit mono in
theorem exists_part {slot n : ℕ} (h0 : cut 0 ≤ slot) (hn : slot < cut n) :
    ∃ w < n, cut w ≤ slot ∧ slot < cut (w + 1) := by
  induction n with
  | zero => omega
  | succ n ih =>
    by_cases h : slot < cut n
    · obtain ⟨w, hw, hpart⟩ := ih h
      exact ⟨w, by omega, hpart⟩
    · exact ⟨n, by omega, by omega, hn⟩

end Monotone

/-- The cut points of `size` elements divided over `count` parts, the first `size % count` of
which get one extra element. -/
def evenCut (size count w : ℕ) : ℕ := w * (size / count) + min w (size % count)

variable (size count : ℕ)

@[simp] theorem evenCut_zero : evenCut size count 0 = 0 := by simp [evenCut]

theorem evenCut_succ (w : ℕ) : evenCut size count (w + 1) =
    evenCut size count w + (size / count + if w < size % count then 1 else 0) := by
  simp only [evenCut, Nat.add_mul, Nat.one_mul]
  split_ifs with h <;> omega

theorem evenCut_mono : Monotone (evenCut size count) := by
  apply monotone_nat_of_le_succ
  intro w
  rw [evenCut_succ]
  exact Nat.le_add_right _ _

theorem evenCut_count (h : 0 < count) : evenCut size count count = size := by
  have hlt := Nat.mod_lt size h
  have hdiv := Nat.div_add_mod size count
  rw [evenCut, Nat.min_eq_right hlt.le]
  exact hdiv

theorem evenCut_of_le {w : ℕ} (h : w ≤ size % count) :
    evenCut size count w = w * (size / count + 1) := by
  rw [evenCut, Nat.min_eq_left h, Nat.mul_add, Nat.mul_one]

theorem evenCut_of_ge {k : ℕ} : evenCut size count (size % count + k) =
    size % count * (size / count + 1) + k * (size / count) := by
  rw [evenCut, Nat.min_eq_right (Nat.le_add_right _ _)]
  ring

theorem evenCut_large {slot : ℕ} (h : slot < size % count * (size / count + 1)) :
    let w := slot / (size / count + 1)
    w < size % count ∧ evenCut size count w ≤ slot ∧ slot < evenCut size count (w + 1) := by
  have hw : slot / (size / count + 1) < size % count := (Nat.div_lt_iff_lt_mul (Nat.succ_pos _)).mpr h
  refine ⟨hw, ?_, ?_⟩
  · rw [evenCut_of_le size count hw.le]
    exact Nat.div_mul_le_self _ _
  · rw [evenCut_of_le size count (by omega)]
    have hlt := Nat.lt_div_mul_add (a := slot) (Nat.succ_pos (size / count))
    rw [Nat.add_mul, Nat.one_mul]
    exact hlt

theorem evenCut_small {slot : ℕ} (hb : 0 < size / count)
    (h : size % count * (size / count + 1) ≤ slot) :
    let w := size % count + (slot - size % count * (size / count + 1)) / (size / count)
    evenCut size count w ≤ slot ∧ slot < evenCut size count (w + 1) := by
  set rest := slot - size % count * (size / count + 1) with hrest
  have hle := Nat.div_mul_le_self rest (size / count)
  have hlt := Nat.lt_div_mul_add (a := rest) hb
  constructor
  · rw [evenCut_of_ge]
    omega
  · rw [Nat.add_assoc, evenCut_of_ge, Nat.add_mul, Nat.one_mul]
    omega

end CrashLab.Cuts
