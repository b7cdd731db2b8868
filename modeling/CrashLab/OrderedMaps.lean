import Mathlib.Tactic

namespace CrashLab.OrderedMaps

open Std

variable {κ β : Type*} {cmp : κ → κ → Ordering} [TransCmp cmp] [LawfulEqCmp cmp]

theorem nodup_toList (m : ExtTreeMap κ β cmp) : m.toList.Nodup := by
  apply m.distinct_keys_toList.imp
  rintro a b hne rfl
  exact hne ReflCmp.compare_self

theorem getElem?_insert_self (m : ExtTreeMap κ β cmp) (k : κ) (v : β) : (m.insert k v)[k]? = some v := by
  rw [ExtTreeMap.getElem?_insert, if_pos ReflCmp.compare_self]

theorem getElem?_insert_of_ne (m : ExtTreeMap κ β cmp) {k l : κ} (v : β) (h : k ≠ l) :
    (m.insert k v)[l]? = m[l]? := by
  rw [ExtTreeMap.getElem?_insert, if_neg fun heq => h (LawfulEqCmp.eq_of_compare heq)]

theorem toList_empty : (∅ : ExtTreeMap κ β cmp).toList = [] := by
  apply List.eq_nil_iff_forall_not_mem.mpr
  intro entry hmem
  have hsome := ExtTreeMap.mem_toList_iff_getElem?_eq_some.mp hmem
  rw [ExtTreeMap.getElem?_empty] at hsome
  cases hsome

variable [DecidableEq κ]

def entriesBesides (m : ExtTreeMap κ β cmp) (k : κ) : List (κ × β) := m.toList.filter (·.1 ≠ k)

theorem mem_entriesBesides {m : ExtTreeMap κ β cmp} {k : κ} {entry : κ × β} :
    entry ∈ entriesBesides m k ↔ m[entry.1]? = some entry.2 ∧ entry.1 ≠ k := by
  rw [entriesBesides, List.mem_filter, ExtTreeMap.mem_toList_iff_getElem?_eq_some, decide_eq_true_iff]

theorem toList_perm_of_some {m : ExtTreeMap κ β cmp} {k : κ} {v : β} (h : m[k]? = some v) :
    m.toList.Perm ((k, v) :: entriesBesides m k) := by
  have hnodup : ((k, v) :: entriesBesides m k).Nodup := by
    refine List.nodup_cons.mpr ⟨?_, (nodup_toList m).filter _⟩
    intro hmem
    exact (mem_entriesBesides.mp hmem).2 rfl
  rw [List.perm_ext_iff_of_nodup (nodup_toList m) hnodup]
  rintro ⟨l, w⟩
  rw [ExtTreeMap.mem_toList_iff_getElem?_eq_some, List.mem_cons, mem_entriesBesides, Prod.mk.injEq]
  by_cases hl : l = k
  · subst hl
    simp only [h, Option.some_inj, eq_comm, true_and, ne_eq, not_true_eq_false, and_false, or_false]
  · simp only [hl, false_and, ne_eq, not_false_eq_true, and_true, false_or]

theorem toList_eq_of_none {m : ExtTreeMap κ β cmp} {k : κ} (h : m[k]? = none) :
    m.toList = entriesBesides m k := by
  refine (List.filter_eq_self.mpr ?_).symm
  intro entry hentry
  have hsome := ExtTreeMap.mem_toList_iff_getElem?_eq_some.mp hentry
  rw [decide_eq_true_iff]
  rintro rfl
  rw [h] at hsome
  cases hsome

theorem toList_insert_perm (m : ExtTreeMap κ β cmp) (k : κ) (v : β) :
    (m.insert k v).toList.Perm ((k, v) :: entriesBesides m k) := by
  refine (toList_perm_of_some (getElem?_insert_self m k v)).trans (List.Perm.cons _ ?_)
  have hnodup := (nodup_toList (m.insert k v)).filter (fun entry => decide (entry.1 ≠ k))
  rw [entriesBesides, entriesBesides,
    List.perm_ext_iff_of_nodup hnodup ((nodup_toList m).filter _)]
  rintro ⟨l, w⟩
  rw [← entriesBesides, ← entriesBesides, mem_entriesBesides, mem_entriesBesides]
  apply and_congr_left
  intro hl
  rw [getElem?_insert_of_ne m v (Ne.symm hl)]

theorem foldl_insert_perm_toList {m : ExtTreeMap κ β cmp} {entries : List (κ × β)}
    (h : entries.Perm m.toList) :
    entries.foldl (fun acc entry => acc.insert entry.1 entry.2) (∅ : ExtTreeMap κ β cmp) = m := by
  have hdistinct : entries.Pairwise fun a b => ¬cmp a.1 b.1 = .eq := by
    refine (h.pairwise_iff ?_).mpr m.distinct_keys_toList
    intro a b hne heq
    exact hne (OrientedCmp.eq_symm heq)
  rw [← ExtTreeMap.ofList_eq_foldl]
  apply ExtTreeMap.ext_getElem?
  intro k
  cases hk : m[k]? with
  | some v =>
    have hmem : (k, v) ∈ entries :=
      h.mem_iff.mpr (ExtTreeMap.mem_toList_iff_getElem?_eq_some.mpr hk)
    exact ExtTreeMap.getElem?_ofList_of_mem ReflCmp.compare_self hdistinct hmem
  | none =>
    apply ExtTreeMap.getElem?_ofList_of_contains_eq_false
    rw [List.contains_eq_mem, decide_eq_false_iff_not, List.mem_map]
    rintro ⟨⟨l, w⟩, hmem, rfl⟩
    have hsome := ExtTreeMap.mem_toList_iff_getElem?_eq_some.mp (h.mem_iff.mp hmem)
    rw [hk] at hsome
    cases hsome

section Grouping

variable {α : Type*}

def push (m : ExtTreeMap κ (List α) cmp) (k : κ) (a : α) : ExtTreeMap κ (List α) cmp :=
  m.insert k (m[k]?.getD [] ++ [a])

variable (cmp) in
def groupBy (key : α → κ) (l : List α) : ExtTreeMap κ (List α) cmp :=
  l.foldl (fun m a => push m (key a) a) ∅

theorem push_get (m : ExtTreeMap κ (List α) cmp) (k l : κ) (a : α) :
    (push m k a)[l]?.getD [] = m[l]?.getD [] ++ if k = l then [a] else [] := by
  unfold push
  split_ifs with h
  · subst h
    rw [getElem?_insert_self, Option.getD_some]
  · rw [getElem?_insert_of_ne m _ h, List.append_nil]

theorem push_nonempty {m : ExtTreeMap κ (List α) cmp} (h : ∀ k : κ, m[k]? ≠ some []) (k : κ) (a : α) :
    ∀ l : κ, (push m k a)[l]? ≠ some [] := by
  intro l
  unfold push
  by_cases hl : k = l
  · subst hl
    rw [getElem?_insert_self]
    simp
  · rw [getElem?_insert_of_ne m _ hl]
    exact h l

theorem push_flatMap_perm (m : ExtTreeMap κ (List α) cmp) (k : κ) (a : α) :
    ((push m k a).toList.flatMap (·.2)).Perm (m.toList.flatMap (·.2) ++ [a]) := by
  refine ((toList_insert_perm m k _).flatMap_right _).trans ?_
  rw [List.flatMap_cons]
  cases hk : m[k]? with
  | none =>
    rw [toList_eq_of_none hk, Option.getD_none, List.nil_append]
    exact List.perm_append_comm
  | some as =>
    have hrest := (toList_perm_of_some hk).flatMap_right (·.2)
    rw [List.flatMap_cons] at hrest
    rw [Option.getD_some]
    refine List.Perm.trans ?_ (hrest.symm.append_right [a])
    rw [List.append_assoc, List.append_assoc]
    exact List.perm_append_comm.append_left as

theorem groupBy_get (key : α → κ) (l : List α) (k : κ) :
    (groupBy cmp key l)[k]?.getD [] = l.filter (key · = k) := by
  induction l using List.reverseRecOn with
  | nil => rw [groupBy, List.foldl_nil, ExtTreeMap.getElem?_empty, Option.getD_none, List.filter_nil]
  | append_singleton l a ih =>
    have hstep : groupBy cmp key (l ++ [a]) = push (groupBy cmp key l) (key a) a := List.foldl_concat _ _ _ _
    rw [hstep, push_get, ih, List.filter_append]
    by_cases hk : key a = k
    · simp [hk]
    · simp [hk]

theorem groupBy_nonempty (key : α → κ) (l : List α) : ∀ k : κ, (groupBy cmp key l)[k]? ≠ some [] := by
  induction l using List.reverseRecOn with
  | nil =>
    intro k
    rw [groupBy, List.foldl_nil, ExtTreeMap.getElem?_empty]
    exact (Option.some_ne_none _).symm
  | append_singleton l a ih =>
    have hstep : groupBy cmp key (l ++ [a]) = push (groupBy cmp key l) (key a) a := List.foldl_concat _ _ _ _
    rw [hstep]
    exact push_nonempty ih _ _

theorem groupBy_flatMap_perm (key : α → κ) (l : List α) :
    ((groupBy cmp key l).toList.flatMap (·.2)).Perm l := by
  induction l using List.reverseRecOn with
  | nil => rw [groupBy, List.foldl_nil, toList_empty, List.flatMap_nil]
  | append_singleton l a ih =>
    have hstep : groupBy cmp key (l ++ [a]) = push (groupBy cmp key l) (key a) a := List.foldl_concat _ _ _ _
    rw [hstep]
    exact (push_flatMap_perm _ _ _).trans (ih.append_right [a])

theorem mem_groupBy_toList {key : α → κ} {l : List α} {group : κ × List α} :
    group ∈ (groupBy cmp key l).toList ↔ group.2 = l.filter (key · = group.1) ∧ group.2 ≠ [] := by
  have hget : (groupBy cmp key l)[group.1]?.getD [] = l.filter (key · = group.1) := groupBy_get key l group.1
  have hne : (groupBy cmp key l)[group.1]? ≠ some [] := groupBy_nonempty key l group.1
  rw [ExtTreeMap.mem_toList_iff_getElem?_eq_some, ← hget]
  cases hgroup : (groupBy cmp key l)[group.1]? with
  | none => simp
  | some as =>
    rw [hgroup] at hne
    rw [Option.some_inj, Option.getD_some]
    constructor
    · rintro rfl
      exact ⟨rfl, fun h => hne (congrArg some h)⟩
    · rintro ⟨h, _⟩
      exact h.symm

end Grouping

section Counting

variable (cmp) in
def countBy (l : List κ) : ExtTreeMap κ ℕ cmp := l.foldl (fun m k => m.insert k (m[k]?.getD 0 + 1)) ∅

theorem countBy_get (l : List κ) (k : κ) : (countBy cmp l)[k]?.getD 0 = l.count k := by
  induction l using List.reverseRecOn with
  | nil => rw [countBy, List.foldl_nil, ExtTreeMap.getElem?_empty, Option.getD_none, List.count_nil]
  | append_singleton l a ih =>
    have hstep : countBy cmp (l ++ [a]) = (countBy cmp l).insert a ((countBy cmp l)[a]?.getD 0 + 1) :=
      List.foldl_concat _ _ _ _
    rw [hstep, List.count_append, ← ih]
    by_cases hk : a = k
    · subst hk
      rw [getElem?_insert_self, Option.getD_some, List.count_singleton_self]
    · rw [getElem?_insert_of_ne _ _ hk, List.count_eq_zero_of_not_mem (by simpa using Ne.symm hk), Nat.add_zero]

end Counting

end CrashLab.OrderedMaps
