import Mathlib.Tactic

namespace CrashLab.Comparators

variable {α β : Type*}

/-- A comparator is negative when its first argument comes first, zero when neither does. -/
structure Consistent (P : α → Prop) (c : α → α → ℚ) : Prop where
  swap : ∀ {a b}, P a → P b → (c a b < 0 ↔ 0 < c b a)
  trans : ∀ {a b d}, P a → P b → P d → c a b ≤ 0 → c b d ≤ 0 → c a d ≤ 0

namespace Consistent

variable {P : α → Prop} {c d : α → α → ℚ}

theorem eq_zero_iff (h : Consistent P c) {a b : α} (ha : P a) (hb : P b) : c a b = 0 ↔ c b a = 0 := by
  have hab := h.swap ha hb
  have hba := h.swap hb ha
  constructor
  · intro hzero
    rw [hzero] at hab hba
    apply le_antisymm
    · exact not_lt.mp fun hlt => absurd (hab.mpr hlt) (lt_irrefl 0)
    · exact not_lt.mp fun hlt => absurd (hba.mp hlt) (lt_irrefl 0)
  · intro hzero
    rw [hzero] at hab hba
    apply le_antisymm
    · exact not_lt.mp fun hlt => absurd (hba.mpr hlt) (lt_irrefl 0)
    · exact not_lt.mp fun hlt => absurd (hab.mp hlt) (lt_irrefl 0)

theorem self (h : Consistent P c) {a : α} (ha : P a) : c a a = 0 := by
  have haa := h.swap ha ha
  rcases lt_trichotomy (c a a) 0 with hlt | hzero | hlt
  · exact absurd (haa.mp hlt) hlt.asymm
  · exact hzero
  · exact absurd (haa.mpr hlt) hlt.asymm

theorem nonneg_iff (h : Consistent P c) {a b : α} (ha : P a) (hb : P b) : 0 ≤ c a b ↔ c b a ≤ 0 := by
  rw [← not_lt, ← not_lt, h.swap ha hb]

theorem lt_of_lt_of_le (h : Consistent P c) {a b e : α} (ha : P a) (hb : P b) (he : P e) (hab : c a b < 0)
    (hbe : c b e ≤ 0) : c a e < 0 := by
  apply lt_of_le_of_ne (h.trans ha hb he hab.le hbe)
  intro hzero
  have hba := h.trans hb he ha hbe ((h.eq_zero_iff ha he).mp hzero).le
  exact absurd ((h.swap ha hb).mp hab) (not_lt.mpr hba)

theorem lt_of_le_of_lt (h : Consistent P c) {a b e : α} (ha : P a) (hb : P b) (he : P e) (hab : c a b ≤ 0)
    (hbe : c b e < 0) : c a e < 0 := by
  apply lt_of_le_of_ne (h.trans ha hb he hab hbe.le)
  intro hzero
  have heb := h.trans he ha hb ((h.eq_zero_iff ha he).mp hzero).le hab
  exact absurd ((h.swap hb he).mp hbe) (not_lt.mpr heb)

theorem comap {Q : β → Prop} {f : β → α} (h : Consistent P c) (hf : ∀ b, Q b → P (f b)) :
    Consistent Q fun a b => c (f a) (f b) where
  swap ha hb := h.swap (hf _ ha) (hf _ hb)
  trans ha hb hd := h.trans (hf _ ha) (hf _ hb) (hf _ hd)

theorem neg (h : Consistent P c) : Consistent P fun a b => -c a b where
  swap ha hb := by rw [neg_lt_zero, neg_pos, h.swap hb ha]
  trans ha hb hd hab hbd := by
    rw [neg_nonpos, h.nonneg_iff ‹_› ‹_›] at hab hbd ⊢
    exact h.trans hd hb ha hbd hab

end Consistent

def thenBy (c d : α → α → ℚ) (a b : α) : ℚ := if c a b ≠ 0 then c a b else d a b

theorem thenBy_neg_iff {c d : α → α → ℚ} {a b : α} :
    thenBy c d a b < 0 ↔ c a b < 0 ∨ c a b = 0 ∧ d a b < 0 := by
  unfold thenBy
  split_ifs with h
  · simp [h]
  · push Not at h
    simp [h]

theorem thenBy_nonpos_iff {c d : α → α → ℚ} {a b : α} :
    thenBy c d a b ≤ 0 ↔ c a b < 0 ∨ c a b = 0 ∧ d a b ≤ 0 := by
  unfold thenBy
  split_ifs with h
  · simp [h, lt_iff_le_and_ne]
  · push Not at h
    simp [h]

theorem pos_thenBy_iff {c d : α → α → ℚ} {a b : α} :
    0 < thenBy c d a b ↔ 0 < c a b ∨ c a b = 0 ∧ 0 < d a b := by
  unfold thenBy
  split_ifs with h
  · simp [h]
  · push Not at h
    simp [h]

theorem Consistent.thenBy {P : α → Prop} {c d : α → α → ℚ} (hc : Consistent P c) (hd : Consistent P d) :
    Consistent P (thenBy c d) where
  swap ha hb := by rw [thenBy_neg_iff, pos_thenBy_iff, hc.swap ha hb, hd.swap ha hb, hc.eq_zero_iff ha hb]
  trans ha hb he hab hbe := by
    rw [thenBy_nonpos_iff] at hab hbe ⊢
    obtain hab | ⟨hab, hab'⟩ := hab
    · left
      exact hc.lt_of_lt_of_le ha hb he hab (hbe.elim le_of_lt fun hbe => hbe.1.le)
    · obtain hbe | ⟨hbe, hbe'⟩ := hbe
      · exact .inl (hc.lt_of_le_of_lt ha hb he hab.le hbe)
      · refine .inr ⟨?_, hd.trans ha hb he hab' hbe'⟩
        apply le_antisymm (hc.trans ha hb he hab.le hbe.le)
        rw [hc.nonneg_iff ha he]
        exact hc.trans he hb ha ((hc.eq_zero_iff hb he).mp hbe).le ((hc.eq_zero_iff ha hb).mp hab).le

section Sorting

def sortBy (c : α → α → ℚ) (l : List α) : List α := l.mergeSort fun a b => decide (c a b ≤ 0)

theorem sortBy_perm (c : α → α → ℚ) (l : List α) : (sortBy c l).Perm l := List.mergeSort_perm l _

@[simp] theorem mem_sortBy {c : α → α → ℚ} {l : List α} {a : α} : a ∈ sortBy c l ↔ a ∈ l := List.mem_mergeSort

theorem map_sortBy (f : β → α) (c : α → α → ℚ) (l : List β) :
    (sortBy (fun a b => c (f a) (f b)) l).map f = sortBy c (l.map f) := by
  apply List.map_mergeSort
  intro a _ b _
  rfl

theorem sortBy_pairwise {P : α → Prop} {c : α → α → ℚ} (h : Consistent P c) {l : List α} (hl : ∀ a ∈ l, P a) :
    (sortBy c l).Pairwise fun a b => c a b ≤ 0 := by
  classical
  -- what the comparator is not consistent on is put first, so that the order is one on the whole type
  let extended : α → α → Bool := fun a b => decide (¬ P a ∨ P b ∧ c a b ≤ 0)
  have hsort : sortBy c l = l.mergeSort extended := by
    have hmap := @List.map_mergeSort _ _ (fun a b => decide (c a b ≤ 0)) extended id l (by
      intro a ha b hb
      simp [extended, hl a ha, hl b hb])
    rwa [List.map_id, List.map_id] at hmap
  have hpairwise : (l.mergeSort extended).Pairwise fun a b => extended a b = true := by
    apply List.pairwise_mergeSort
    · intro a b d hab hbd
      simp only [extended, decide_eq_true_eq] at hab hbd ⊢
      by_cases ha : P a
      · obtain ⟨hb, hab⟩ := hab.resolve_left (not_not_intro ha)
        obtain ⟨hd, hbd⟩ := hbd.resolve_left (not_not_intro hb)
        exact .inr ⟨hd, h.trans ha hb hd hab hbd⟩
      · exact .inl ha
    · intro a b
      simp only [extended, Bool.or_eq_true, decide_eq_true_eq]
      by_cases ha : P a
      · by_cases hb : P b
        · rcases le_or_gt (c a b) 0 with hab | hab
          · exact .inl (.inr ⟨hb, hab⟩)
          · exact .inr (.inr ⟨ha, ((h.swap hb ha).mpr hab).le⟩)
        · exact .inr (.inl hb)
      · exact .inl (.inl ha)
  rw [hsort]
  apply hpairwise.imp_of_mem
  intro a b ha _ hab
  rw [List.mem_mergeSort] at ha
  simp only [extended, decide_eq_true_eq] at hab
  exact (hab.resolve_left (not_not_intro (hl a ha))).2

theorem sortBy_strict {P : α → Prop} {c : α → α → ℚ} (h : Consistent P c) {l : List α} (hl : ∀ a ∈ l, P a)
    (hdistinct : l.Pairwise fun a b => c a b ≠ 0) : (sortBy c l).Pairwise fun a b => c a b < 0 := by
  have hne : (sortBy c l).Pairwise fun a b => P a ∧ P b ∧ c a b ≠ 0 := by
    apply (List.Perm.pairwise_iff ?_ (sortBy_perm c l)).mpr
    · apply hdistinct.imp_of_mem
      intro a b ha hb hab
      exact ⟨hl a ha, hl b hb, hab⟩
    · rintro a b ⟨ha, hb, hab⟩
      exact ⟨hb, ha, fun hzero => hab ((h.eq_zero_iff hb ha).mp hzero)⟩
  apply ((sortBy_pairwise h hl).and hne).imp
  rintro a b ⟨hle, -, -, hab⟩
  exact lt_of_le_of_ne hle hab

end Sorting

end CrashLab.Comparators
