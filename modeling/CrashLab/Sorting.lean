import Mathlib.Data.List.Sort
import Mathlib.Tactic

namespace CrashLab.Sorting

variable {α κ : Type*} [LinearOrder κ] (key : α → κ)

def sortByKey (l : List α) : List α := l.insertionSort (key · ≤ key ·)

theorem sortByKey_perm (l : List α) : (sortByKey key l).Perm l := List.perm_insertionSort _ l

@[simp] theorem mem_sortByKey {l : List α} {a : α} : a ∈ sortByKey key l ↔ a ∈ l :=
  (sortByKey_perm key l).mem_iff

theorem sortByKey_sorted (l : List α) : (sortByKey key l).Pairwise (key · ≤ key ·) := by
  have : IsTrans α (key · ≤ key ·) := ⟨fun _ _ _ => le_trans⟩
  have : @Std.Total α (key · ≤ key ·) := ⟨fun a b => le_total (key a) (key b)⟩
  exact List.pairwise_insertionSort _ l

variable {key}

theorem sortByKey_pairwise {R S : α → α → Prop} {l : List α} (symm : ∀ a b, R a b → R b a)
    (hR : l.Pairwise R) (hS : ∀ a ∈ l, ∀ b ∈ l, R a b → key a ≤ key b → S a b) :
    (sortByKey key l).Pairwise S := by
  have hperm := sortByKey_perm key l
  have hR' : (sortByKey key l).Pairwise R := (hperm.pairwise_iff (symm _ _)).mpr hR
  refine List.Pairwise.imp_of_mem ?_ (hR'.and (sortByKey_sorted key l))
  intro a b ha hb h
  exact hS a (hperm.mem_iff.mp ha) b (hperm.mem_iff.mp hb) h.1 h.2

theorem map_sortByKey_eq {β : Type*} {f : α → β} {l l' : List α} (h : l.Perm l')
    (hf : ∀ a ∈ l, ∀ b ∈ l, key a = key b → f a = f b) :
    (sortByKey key l).map f = (sortByKey key l').map f := by
  have hkeys : (sortByKey key l).map key = (sortByKey key l').map key := by
    apply List.Perm.eq_of_pairwise (fun _ _ _ _ => le_antisymm)
    · exact List.pairwise_map.mpr (sortByKey_sorted key l)
    · exact List.pairwise_map.mpr (sortByKey_sorted key l')
    · exact (((sortByKey_perm key l).trans h).trans (sortByKey_perm key l').symm).map key
  have hmem : ∀ a ∈ sortByKey key l, a ∈ l := fun a ha => (mem_sortByKey key).mp ha
  have hmem' : ∀ a ∈ sortByKey key l', a ∈ l := fun a ha => h.mem_iff.mpr ((mem_sortByKey key).mp ha)
  generalize sortByKey key l = s at hkeys hmem ⊢
  generalize sortByKey key l' = s' at hkeys hmem' ⊢
  induction s generalizing s' with
  | nil =>
    rw [List.map_nil, eq_comm, List.map_eq_nil_iff] at hkeys
    rw [hkeys]
  | cons a s ih =>
    cases s' with
    | nil => simp at hkeys
    | cons b s' =>
      rw [List.map_cons, List.map_cons, List.cons.injEq] at hkeys
      rw [List.forall_mem_cons] at hmem hmem'
      rw [List.map_cons, List.map_cons, hf a hmem.1 b hmem'.1 hkeys.1, ih hmem.2 s' hkeys.2 hmem'.2]

theorem sortByKey_eq_of_perm (inj : Function.Injective key) {l l' : List α} (h : l.Perm l') :
    sortByKey key l = sortByKey key l' := by
  have hmap := @map_sortByKey_eq _ _ _ key _ id l l' h (fun _ _ _ _ hkey => inj hkey)
  rwa [List.map_id, List.map_id] at hmap

theorem filter_sortByKey {p : α → Bool} (hp : ∀ a b, p a = true → p b = true → key a = key b)
    (l : List α) : (sortByKey key l).filter p = l.filter p := by
  have htrans : IsTrans α (key · ≤ key ·) := ⟨fun _ _ _ => le_trans⟩
  have htotal : @Std.Total α (key · ≤ key ·) := ⟨fun a b => le_total (key a) (key b)⟩
  have hequal : (l.filter p).Pairwise (key · ≤ key ·) := by
    apply List.pairwise_of_forall_mem_list
    intro a ha b hb
    exact (hp a b (List.mem_filter.mp ha).2 (List.mem_filter.mp hb).2).le
  have hsub : ((l.filter p).filter p).Sublist ((sortByKey key l).filter p) :=
    (List.sublist_insertionSort hequal List.filter_sublist).filter p
  rw [List.filter_filter, show (fun a => p a && p a) = p from funext fun a => Bool.and_self _] at hsub
  exact (hsub.eq_of_length ((sortByKey_perm key l).filter p).length_eq.symm).symm

theorem eq_of_filter_key_eq {l l' : List α} (sorted : l.Pairwise (key · ≤ key ·))
    (sorted' : l'.Pairwise (key · ≤ key ·))
    (h : ∀ k, l.filter (key · = k) = l'.filter (key · = k)) : l = l' := by
  have hmem : ∀ a, a ∈ l ↔ a ∈ l' := by
    intro a
    have hfilter : a ∈ l.filter (key · = key a) ↔ a ∈ l'.filter (key · = key a) := by rw [h]
    simpa only [List.mem_filter, decide_true, and_true] using hfilter
  induction l generalizing l' with
  | nil => exact (List.eq_nil_iff_forall_not_mem.mpr fun a ha => List.not_mem_nil ((hmem a).mpr ha)).symm
  | cons a l ih =>
    cases l' with
    | nil => exact absurd ((hmem a).mp List.mem_cons_self) List.not_mem_nil
    | cons b l' =>
      rw [List.pairwise_cons] at sorted sorted'
      have hle : key a ≤ key b := by
        rcases List.mem_cons.mp ((hmem b).mpr List.mem_cons_self) with rfl | hb
        · exact le_rfl
        · exact sorted.1 b hb
      have hge : key b ≤ key a := by
        rcases List.mem_cons.mp ((hmem a).mp List.mem_cons_self) with rfl | ha
        · exact le_rfl
        · exact sorted'.1 a ha
      have hkey : key a = key b := le_antisymm hle hge
      have hhead := h (key a)
      simp only [List.filter_cons, hkey, decide_true, ↓reduceIte, List.cons.injEq] at hhead
      obtain ⟨rfl, -⟩ := hhead
      have htail : ∀ k, l.filter (key · = k) = l'.filter (key · = k) := by
        intro k
        have hk := h k
        rw [List.filter_cons, List.filter_cons] at hk
        split_ifs at hk
        · exact (List.cons.inj hk).2
        · exact hk
      rw [ih sorted.2 sorted'.2 htail]
      intro c
      have hfilter : c ∈ l.filter (key · = key c) ↔ c ∈ l'.filter (key · = key c) := by rw [htail]
      simpa only [List.mem_filter, decide_true, and_true] using hfilter

theorem sortByKey_eq_iff {l l' : List α} :
    sortByKey key l = sortByKey key l' ↔ ∀ k, l.filter (key · = k) = l'.filter (key · = k) := by
  have hfilter : ∀ (m : List α) (k : κ), (sortByKey key m).filter (key · = k) = m.filter (key · = k) := by
    intro m k
    apply filter_sortByKey
    intro a b ha hb
    exact (of_decide_eq_true ha).trans (of_decide_eq_true hb).symm
  constructor
  · intro h k
    rw [← hfilter l, h, hfilter]
  · intro h
    apply eq_of_filter_key_eq (sortByKey_sorted key l) (sortByKey_sorted key l')
    intro k
    rw [hfilter, hfilter, h]

def dedupAdjacent [DecidableEq α] : List α → List α
  | a :: b :: l => if a = b then dedupAdjacent (b :: l) else a :: dedupAdjacent (b :: l)
  | l => l

@[simp] theorem mem_dedupAdjacent [DecidableEq α] {l : List α} {a : α} :
    a ∈ dedupAdjacent l ↔ a ∈ l := by
  fun_induction dedupAdjacent l with
  | case1 b l ih =>
    rw [ih]
    simp only [List.mem_cons, or_self_left]
  | case2 b c l hne ih => simp only [List.mem_cons, ih]
  | case3 l hl => rfl

theorem dedupAdjacent_pairwise_lt {l : List κ} (h : l.Pairwise (· ≤ ·)) :
    (dedupAdjacent l).Pairwise (· < ·) := by
  fun_induction dedupAdjacent l with
  | case1 b l ih => exact ih (List.pairwise_cons.mp h).2
  | case2 a b l hne ih =>
    obtain ⟨ha, hl⟩ := List.pairwise_cons.mp h
    apply List.pairwise_cons.mpr
    refine ⟨?_, ih hl⟩
    intro c hc
    rw [mem_dedupAdjacent] at hc
    have hab : a < b := lt_of_le_of_ne (ha b List.mem_cons_self) hne
    rcases List.mem_cons.mp hc with rfl | hc
    · exact hab
    · exact hab.trans_le ((List.pairwise_cons.mp hl).1 c hc)
  | case3 l hl =>
    cases l with
    | nil => exact List.Pairwise.nil
    | cons a l =>
      cases l with
      | nil => exact List.pairwise_singleton _ _
      | cons b l => exact absurd rfl (hl a b l)

/-- The canonical list of the members of `l`. -/
def sortDedup (l : List κ) : List κ := dedupAdjacent (sortByKey id l)

@[simp] theorem mem_sortDedup {l : List κ} {a : κ} : a ∈ sortDedup l ↔ a ∈ l := by
  rw [sortDedup, mem_dedupAdjacent, mem_sortByKey]

theorem sortDedup_pairwise_lt (l : List κ) : (sortDedup l).Pairwise (· < ·) :=
  dedupAdjacent_pairwise_lt (sortByKey_sorted id l)

theorem sortDedup_eq_iff {l l' : List κ} : sortDedup l = sortDedup l' ↔ ∀ a, a ∈ l ↔ a ∈ l' := by
  constructor
  · intro h a
    rw [← mem_sortDedup, h, mem_sortDedup]
  · intro h
    apply List.Pairwise.eq_of_mem_iff (sortDedup_pairwise_lt l) (sortDedup_pairwise_lt l')
    intro a
    rw [mem_sortDedup, mem_sortDedup, h]

section DedupByKey

variable (key)

def dedupFrom (a : α) : List α → List α
  | [] => [a]
  | b :: l => if key b = key a then dedupFrom a l else a :: dedupFrom b l

def dedupByKey : List α → List α
  | [] => []
  | a :: l => dedupFrom key a l

variable {key}

theorem exists_mem_dedupFrom {a c : α} {l : List α} (h : c ∈ a :: l) : ∃ d ∈ dedupFrom key a l, key d = key c := by
  induction l generalizing a c with
  | nil => exact ⟨c, h, rfl⟩
  | cons b l ih =>
    unfold dedupFrom
    split_ifs with hkey
    · rcases List.mem_cons.mp h with rfl | h
      · exact ih List.mem_cons_self
      · rcases List.mem_cons.mp h with rfl | h
        · rw [hkey]
          exact ih List.mem_cons_self
        · exact ih (List.mem_cons_of_mem a h)
    · rcases List.mem_cons.mp h with rfl | h
      · exact ⟨c, List.mem_cons_self, rfl⟩
      · obtain ⟨d, hd, hdc⟩ := ih h
        exact ⟨d, List.mem_cons_of_mem a hd, hdc⟩

theorem exists_mem_dedupByKey {c : α} {l : List α} (h : c ∈ l) : ∃ d ∈ dedupByKey key l, key d = key c := by
  cases l with
  | nil => exact absurd h List.not_mem_nil
  | cons a l => exact exists_mem_dedupFrom h

end DedupByKey

end CrashLab.Sorting
