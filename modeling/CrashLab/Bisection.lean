import Mathlib.Data.Nat.Log
import Mathlib.Tactic

namespace CrashLab.Bisection

@[ext]
structure Window where
  lo : ℕ
  hi : ℕ

namespace Window

variable (w : Window) {v : ℕ}

def Has (v : ℕ) : Prop := w.lo ≤ v ∧ v ≤ w.hi

def size : ℕ := w.hi + 1 - w.lo

def middle : ℕ := w.lo + (w.hi - w.lo) / 2

def above : Window := ⟨w.middle + 1, w.hi⟩

def below : Window := ⟨w.lo, w.middle - 1⟩

variable {w}

theorem size_pos (h : w.Has v) : 0 < w.size := by
  simp only [Has, size] at *
  omega

theorem le_middle : w.lo ≤ w.middle := Nat.le_add_right ..

theorem middle_le (h : w.Has v) : w.middle ≤ w.hi := by
  simp only [Has, middle] at *
  omega

theorem above_has (h : w.Has v) (hlt : w.middle < v) : w.above.Has v := ⟨hlt, h.2⟩

theorem below_has (h : w.Has v) (hlt : v < w.middle) : w.below.Has v := ⟨h.1, Nat.le_sub_one_of_lt hlt⟩

theorem above_size_le : w.above.size ≤ w.size / 2 := by
  simp only [above, size, middle]
  omega

theorem below_size_le (h : w.Has v) (hlt : v < w.middle) : w.below.size ≤ w.size / 2 := by
  simp only [Has, below, size, middle] at *
  omega

end Window

variable {σ : Type*} (step : σ → σ) (Found Live : σ → Prop) (room : σ → ℕ)

theorem found_within (pos : ∀ s, Live s → 0 < room s)
    (halves : ∀ s, Live s → Found (step s) ∨ Live (step s) ∧ room (step s) ≤ room s / 2)
    {s : σ} (live : Live s) : ∃ n ≤ Nat.log 2 (room s) + 1, Found (step^[n] s) := by
  induction hroom : room s using Nat.strong_induction_on generalizing s with
  | _ size ih =>
    subst hroom
    obtain hfound | ⟨hlive, hhalf⟩ := halves s live
    · exact ⟨1, Nat.le_add_left .., hfound⟩
    · have hleft := pos _ hlive
      obtain ⟨n, hn, hfound⟩ := ih (room (step s)) (by omega) hlive rfl
      have hlog : Nat.log 2 (room (step s)) ≤ Nat.log 2 (room s / 2) := Nat.log_mono_right hhalf
      rw [Nat.log_div_base] at hlog
      have hone : 0 < Nat.log 2 (room s) := Nat.log_pos (by omega) (by omega)
      exact ⟨n + 1, by omega, hfound⟩

end CrashLab.Bisection
