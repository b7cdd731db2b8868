import CrashLab.Sorting

namespace CrashLab.Rankings

open Sorting

variable {α κ : Type*} [LinearOrder α] [LinearOrder κ] (key : α → κ)

/-- A stable sort by `key` of an increasing list puts `b` before `a`. -/
def Before (b a : α) : Prop := key b < key a ∨ key b = key a ∧ b < a

instance (b a : α) : Decidable (Before key b a) := inferInstanceAs (Decidable (_ ∨ _))

def rankIn (l : List α) (a : α) : ℕ := l.countP fun b => Before key b a

variable {key}

theorem before_iff {a b : α} : Before key b a ↔ toLex (key b, b) < toLex (key a, a) := by
  rw [Prod.Lex.toLex_lt_toLex, Before]

theorem Before.asymm {a b : α} (h : Before key a b) : ¬ Before key b a := by
  rw [before_iff] at h ⊢
  exact h.asymm

theorem Before.key_le {a b : α} (h : Before key b a) : key b ≤ key a := by
  rcases h with hlt | ⟨heq, -⟩
  · exact hlt.le
  · exact heq.le

theorem rankIn_mono {l : List α} {a b : α} (h : Before key a b) : rankIn key l a ≤ rankIn key l b := by
  apply List.countP_mono_left
  intro c _ hc
  rw [decide_eq_true_iff, before_iff] at hc ⊢
  exact hc.trans (before_iff.mp h)

theorem before_of_rankIn_lt {l : List α} {a b : α} (h : rankIn key l a < rankIn key l b) : Before key a b := by
  by_contra hbefore
  rw [before_iff, not_lt] at hbefore
  rcases hbefore.lt_or_eq with hlt | heq
  · have hmono := rankIn_mono (l := l) (before_iff.mpr hlt)
    omega
  · have hab : b = a := (Prod.mk.inj (toLex_inj.mp heq)).2
    rw [hab] at h
    exact lt_irrefl _ h

theorem getElem_mem_take_iff {β : Type*} {s : List β} (hnodup : s.Nodup) {r k : ℕ} (hr : r < s.length) :
    s[r] ∈ s.take k ↔ r < k := by
  rw [List.mem_take_iff_getElem]
  constructor
  · rintro ⟨i, hi, heq⟩
    rw [hnodup.getElem_inj_iff] at heq
    omega
  · intro hk
    exact ⟨r, by omega, rfl⟩

theorem getElem_mem_drop_iff {β : Type*} {s : List β} (hnodup : s.Nodup) {r k : ℕ} (hr : r < s.length) :
    s[r] ∈ s.drop k ↔ k ≤ r := by
  rw [List.mem_drop_iff_getElem]
  constructor
  · rintro ⟨i, hi, heq⟩
    rw [hnodup.getElem_inj_iff] at heq
    omega
  · intro hk
    refine ⟨r - k, by omega, ?_⟩
    simp only [Nat.add_sub_cancel' hk]

section Sorted

variable {l : List α} (h : l.Pairwise (· < ·))

include h

theorem sortByKey_eq_toLex : sortByKey key l = sortByKey (fun a => toLex (key a, a)) l := by
  have hsorted : (sortByKey (fun a => toLex (key a, a)) l).Pairwise (key · ≤ key ·) := by
    apply (sortByKey_sorted _ l).imp
    intro a b hab
    rcases Prod.Lex.toLex_le_toLex.mp hab with hlt | ⟨heq, -⟩
    · exact hlt.le
    · exact heq.le
  apply eq_of_filter_key_eq (sortByKey_sorted key l) hsorted
  intro k
  rw [filter_sortByKey]
  · -- what has the key `k` is increasing on both sides
    have hincr : ((sortByKey (fun a => toLex (key a, a)) l).filter (key · = k)).Pairwise (· ≤ ·) := by
      have hfilter := (sortByKey_sorted (fun a => toLex (key a, a)) l).filter (fun a => decide (key a = k))
      apply hfilter.imp_of_mem
      intro a b ha hb hab
      have hka := of_decide_eq_true (List.mem_filter.mp ha).2
      have hkb := of_decide_eq_true (List.mem_filter.mp hb).2
      rcases Prod.Lex.toLex_le_toLex.mp hab with hlt | ⟨-, hle⟩
      · rw [hka, hkb] at hlt
        exact absurd hlt (lt_irrefl k)
      · exact hle
    apply List.Perm.eq_of_pairwise (fun _ _ _ _ => le_antisymm)
    · exact (h.filter _).imp le_of_lt
    · exact hincr
    · exact ((sortByKey_perm _ l).filter _).symm
  · intro a b ha hb
    exact (of_decide_eq_true ha).trans (of_decide_eq_true hb).symm

theorem sortByKey_pairwise_before : (sortByKey key l).Pairwise (Before key) := by
  have hnodup : (sortByKey key l).Pairwise (· ≠ ·) :=
    (sortByKey_perm key l).nodup_iff.mpr (h.imp ne_of_lt)
  rw [sortByKey_eq_toLex h] at hnodup ⊢
  apply ((sortByKey_sorted (fun a => toLex (key a, a)) l).and hnodup).imp
  rintro a b ⟨hle, hne⟩
  rw [before_iff]
  apply lt_of_le_of_ne hle
  intro heq
  exact hne (Prod.mk.inj (toLex_inj.mp heq)).2

omit h in
theorem countP_before_of_getElem? {s : List α} (hs : s.Pairwise (Before key)) {a : α} {r : ℕ}
    (hr : s[r]? = some a) : s.countP (fun b => Before key b a) = r := by
  induction s generalizing r with
  | nil => simp at hr
  | cons b s ih =>
    obtain ⟨hb, hs⟩ := List.pairwise_cons.mp hs
    cases r with
    | zero =>
      obtain rfl : b = a := by simpa using hr
      rw [List.countP_eq_zero]
      intro c hc hbefore
      rw [decide_eq_true_iff] at hbefore
      rcases List.mem_cons.mp hc with rfl | hc
      · exact hbefore.asymm hbefore
      · exact (hb c hc).asymm hbefore
    | succ r =>
      rw [List.getElem?_cons_succ] at hr
      have hba : decide (Before key b a) = true := decide_eq_true (hb a (List.mem_of_getElem? hr))
      rw [List.countP_cons, ih hs hr, if_pos hba]

theorem rankIn_of_getElem? {a : α} {r : ℕ} (hr : (sortByKey key l)[r]? = some a) : rankIn key l a = r := by
  rw [rankIn, ← (sortByKey_perm key l).countP_eq]
  exact countP_before_of_getElem? (sortByKey_pairwise_before h) hr

theorem getElem?_sortByKey_iff {a : α} {r : ℕ} :
    (sortByKey key l)[r]? = some a ↔ a ∈ l ∧ rankIn key l a = r := by
  constructor
  · intro hr
    exact ⟨(mem_sortByKey key).mp (List.mem_of_getElem? hr), rankIn_of_getElem? h hr⟩
  · rintro ⟨ha, rfl⟩
    obtain ⟨r, hr⟩ := List.mem_iff_getElem?.mp ((mem_sortByKey key).mpr ha)
    rw [rankIn_of_getElem? h hr, hr]

theorem mem_zipIdx_sortByKey_iff {a : α} {r : ℕ} :
    (a, r) ∈ (sortByKey key l).zipIdx ↔ a ∈ l ∧ rankIn key l a = r := by
  rw [List.mk_mem_zipIdx_iff_getElem?, getElem?_sortByKey_iff h]

omit h in
theorem countP_eq_of_iff_lt {β : Type*} {s : List β} {p : β → Bool} {m : ℕ}
    (hp : ∀ r (hr : r < s.length), p s[r] = true ↔ r < m) : s.countP p = min m s.length := by
  induction s generalizing m with
  | nil => simp
  | cons b s ih =>
    have hhead : p b = true ↔ 0 < m := hp 0 (by simp)
    have htail : s.countP p = min (m - 1) s.length := by
      apply ih
      intro r hr
      have hsucc := hp (r + 1) (by simpa using hr)
      rw [List.getElem_cons_succ] at hsucc
      rw [hsucc]
      omega
    rw [List.countP_cons, htail, List.length_cons]
    by_cases hm : 0 < m
    · rw [if_pos (hhead.mpr hm)]
      omega
    · rw [if_neg (mt hhead.mp hm)]
      omega

theorem countP_rankIn_lt (k : ℕ) : l.countP (fun a => rankIn key l a < k) = min k l.length := by
  rw [← (sortByKey_perm key l).countP_eq, ← (sortByKey_perm key l).length_eq]
  apply countP_eq_of_iff_lt
  intro r hr
  rw [decide_eq_true_iff, rankIn_of_getElem? h (List.getElem?_eq_getElem hr)]

end Sorted

theorem rankIn_lt_countP_iff {p : α → Bool} (hp : ∀ a b, key a ≤ key b → p b = true → p a = true) {a : α}
    (ha : a ∈ l) : rankIn key l a < l.countP p ↔ p a = true := by
  constructor
  · intro hlt
    by_contra hpa
    apply absurd hlt (not_lt.mpr _)
    apply List.countP_mono_left
    intro b _ hb
    rw [decide_eq_true_iff, Before]
    by_contra hbefore
    rw [not_or] at hbefore
    exact hpa (hp a b (not_lt.mp hbefore.1) hb)
  · intro hpa
    -- `a` itself is counted, and not before itself
    have hlt : l.countP (fun b => Before key b a) < l.countP p := by
      have hsub : ∀ b ∈ l, decide (Before key b a) = true → (p b && decide (b ≠ a)) = true := by
        intro b _ hb
        rw [decide_eq_true_iff] at hb
        rw [Bool.and_eq_true, decide_eq_true_iff]
        refine ⟨hp b a hb.key_le hpa, ?_⟩
        rintro rfl
        exact hb.asymm hb
      apply lt_of_le_of_lt (List.countP_mono_left hsub)
      rw [List.countP_eq_length_filter, List.countP_eq_length_filter]
      have hfilter : l.filter (fun b => p b && decide (b ≠ a)) = (l.filter p).filter (fun b => decide (b ≠ a)) := by
        rw [List.filter_filter]
        exact List.filter_congr fun b _ => Bool.and_comm _ _
      rw [hfilter]
      apply List.length_filter_lt_length_iff_exists.mpr
      exact ⟨a, List.mem_filter.mpr ⟨ha, hpa⟩, by simp⟩
    exact hlt

end CrashLab.Rankings
