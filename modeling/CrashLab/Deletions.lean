import Mathlib.Tactic

namespace CrashLab.Deletions

variable {α : Type*}

/-- Nothing that is accepted lies one deletion away, at `kept` or behind it. -/
def Minimal (accepts : List α → Prop) (kept : ℕ) (l : List α) : Prop :=
  ∀ i, kept ≤ i → i < l.length → ¬ accepts (l.eraseIdx i)

theorem Minimal.nil (accepts : List α → Prop) (kept : ℕ) : Minimal accepts kept [] := by
  intro i _ hi
  exact absurd hi (Nat.not_lt_zero i)

theorem minimal_singleton {accepts : List α → Prop} {a : α} :
    Minimal accepts 0 [a] ↔ ¬ accepts [] := by
  constructor
  · intro h
    exact h 0 (le_refl 0) Nat.one_pos
  · intro h i _ hi
    obtain rfl : i = 0 := Nat.lt_one_iff.mp hi
    exact h

theorem minimal_iff_of_short {accepts : List α → Prop} {l : List α}
    (h : l.length ≤ 1 ∨ Minimal accepts 0 l) :
    Minimal accepts 0 l ↔ ¬ (l.length = 1 ∧ accepts []) := by
  by_cases hone : l.length = 1
  · obtain ⟨a, rfl⟩ := List.length_eq_one_iff.mp hone
    rw [minimal_singleton, and_iff_right hone]
  · refine iff_of_true ?_ fun hopen => hone hopen.1
    rcases h with hshort | hminimal
    · obtain rfl : l = [] := List.length_eq_zero_iff.mp (by omega)
      exact Minimal.nil accepts 0
    · exact hminimal

/-- What deletions at `kept` or behind it leave of `l`. -/
structure Shortened (kept : ℕ) (l result : List α) : Prop where
  sublist : result.Sublist l
  front : result.take kept = l.take kept

theorem Shortened.refl (kept : ℕ) (l : List α) : Shortened kept l l := ⟨List.Sublist.refl l, rfl⟩

theorem Shortened.trans {kept : ℕ} {l middle result : List α} (h : Shortened kept l middle)
    (h' : Shortened kept middle result) : Shortened kept l result :=
  ⟨h'.sublist.trans h.sublist, h'.front.trans h.front⟩

theorem Shortened.eraseIdx {kept i : ℕ} (l : List α) (h : kept ≤ i) :
    Shortened kept l (l.eraseIdx i) := by
  refine ⟨List.eraseIdx_sublist l i, List.ext_getElem? fun j => ?_⟩
  rw [List.getElem?_take, List.getElem?_take]
  split_ifs with hj
  · exact List.getElem?_eraseIdx_of_lt (lt_of_lt_of_le hj h)
  · rfl

end CrashLab.Deletions
