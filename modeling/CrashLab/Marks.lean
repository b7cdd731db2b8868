import Mathlib.Tactic

namespace CrashLab.Marks

variable {α β : Type*} {n : ℕ}

theorem getElem_set_fin (v : Vector α n) (i j : Fin n) (a : α) : (v.set i a)[j] = if i = j then a else v[j] := by
  rw [Fin.getElem_fin, Fin.getElem_fin, Vector.getElem_set]
  simp only [Fin.ext_iff]

theorem toList_eq_map_finRange (v : Vector α n) : v.toList = (List.finRange n).map fun i => v[i] := by
  apply List.ext_getElem
  · simp
  · intro i h₁ h₂
    simp

theorem getElem_foldl_mark (p : Fin n → Bool) (indices : List (Fin n)) (keep : Vector Bool n) (j : Fin n) :
    (indices.foldl (fun keep i => if p i then keep.set i true else keep) keep)[j] =
      (keep[j] || decide (j ∈ indices) && p j) := by
  induction indices generalizing keep with
  | nil => simp
  | cons i indices ih =>
    rw [List.foldl_cons, ih]
    by_cases hi : p i = true
    · rw [if_pos hi, getElem_set_fin]
      by_cases hij : i = j
      · subst hij
        simp [hi]
      · simp [hij, Ne.symm hij]
    · rw [if_neg hi]
      by_cases hij : j = i
      · subst hij
        simp [hi]
      · simp [hij]

variable (pos : β → Fin n) (val : β → α)

theorem getElem_foldl_set_of_not_mem {writes : List β} {v : Vector α n} {j : Fin n} (h : j ∉ writes.map pos) :
    (writes.foldl (fun v w => v.set (pos w) (val w)) v)[j] = v[j] := by
  induction writes generalizing v with
  | nil => rfl
  | cons w writes ih =>
    rw [List.map_cons, List.mem_cons, not_or] at h
    rw [List.foldl_cons, ih h.2, getElem_set_fin, if_neg (Ne.symm h.1)]

theorem getElem_foldl_set {writes : List β} (hnodup : (writes.map pos).Nodup) {v : Vector α n} {w : β}
    (hw : w ∈ writes) : (writes.foldl (fun v w => v.set (pos w) (val w)) v)[pos w] = val w := by
  induction writes generalizing v with
  | nil => exact absurd hw List.not_mem_nil
  | cons u writes ih =>
    rw [List.map_cons, List.nodup_cons] at hnodup
    rw [List.foldl_cons]
    rcases List.mem_cons.mp hw with rfl | hw
    · rw [getElem_foldl_set_of_not_mem pos val hnodup.1, getElem_set_fin, if_pos rfl]
    · exact ih hnodup.2 hw

end CrashLab.Marks
