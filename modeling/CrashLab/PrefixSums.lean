import Mathlib.Tactic

namespace CrashLab.PrefixSums

variable {α : Type*}

def cumulate [Add α] (sum : α) : List α → List α
  | [] => []
  | w :: ws => (sum + w) :: cumulate (sum + w) ws

theorem cumulate_eq [AddMonoid α] (sum : α) (ws : List α) :
    cumulate sum ws = (List.range ws.length).map fun k => sum + (ws.take (k + 1)).sum := by
  induction ws generalizing sum with
  | nil => rfl
  | cons w ws ih =>
    rw [cumulate, ih, List.length_cons, List.range_succ_eq_map, List.map_cons, List.map_map]
    simp [Function.comp_def, add_assoc]

theorem cumulate_zero [AddMonoid α] (ws : List α) :
    cumulate 0 ws = (List.range ws.length).map fun k => (ws.take (k + 1)).sum := by
  simp only [cumulate_eq, zero_add]

variable [AddCommGroup α] [LinearOrder α] [IsOrderedAddMonoid α]

theorem sum_pos_of_mem {ws : List α} (h : ∀ w ∈ ws, 0 ≤ w) {w : α} (hw : w ∈ ws) (hpos : 0 < w) :
    0 < ws.sum := hpos.trans_le (List.single_le_sum h w hw)

theorem sum_set_zero_pos_iff {ws : List α} (h : ∀ w ∈ ws, 0 ≤ w) (i : ℕ) :
    0 < (ws.set i 0).sum ↔ ∃ j w, ws[j]? = some w ∧ j ≠ i ∧ w ≠ 0 := by
  have hset : ∀ w ∈ ws.set i 0, 0 ≤ w := by
    intro w hw
    rcases List.mem_or_eq_of_mem_set hw with hw | rfl
    · exact h w hw
    · exact le_refl _
  constructor
  · intro hpos
    by_contra hnone
    push Not at hnone
    have hzero : ∀ w ∈ ws.set i 0, w = 0 := by
      intro w hw
      obtain ⟨j, hj⟩ := List.getElem?_of_mem hw
      by_cases hji : j = i
      · subst hji
        rw [List.getElem?_set_self'] at hj
        obtain ⟨-, -, rfl⟩ := Option.map_eq_some_iff.mp hj
        rfl
      · rw [List.getElem?_set_ne (Ne.symm hji)] at hj
        exact hnone j w hj hji
    rw [List.sum_eq_zero hzero] at hpos
    exact lt_irrefl _ hpos
  · rintro ⟨j, w, hj, hji, hw⟩
    have hmem : w ∈ ws.set i 0 := by
      rw [List.mem_iff_getElem?]
      exact ⟨j, by rw [List.getElem?_set_ne (Ne.symm hji)]; exact hj⟩
    exact sum_pos_of_mem hset hmem (lt_of_le_of_ne (hset w hmem) hw.symm)

theorem sum_set_pos {ws : List α} (h : ∀ w ∈ ws, 0 ≤ w) {i : ℕ} (hi : i < ws.length) {q : α}
    (hq : 0 < q) : 0 < (ws.set i q).sum := by
  refine sum_pos_of_mem ?_ (List.mem_set hi q) hq
  intro w hw
  rcases List.mem_or_eq_of_mem_set hw with hw | rfl
  · exact h w hw
  · exact hq.le

end CrashLab.PrefixSums
