import Mathlib.Tactic

namespace CrashLab.KeyedLists

variable {α κ : Type*}

section UniqueKeys

def UniqueKeys (key : α → κ) (l : List α) : Prop := (l.map key).Nodup

variable {key : α → κ} {l l' : List α} {a b : α}

theorem UniqueKeys.sublist (unique : UniqueKeys key l) (h : l'.Sublist l) : UniqueKeys key l' :=
  List.Nodup.sublist (h.map key) unique

theorem UniqueKeys.subperm (unique : UniqueKeys key l) (h : l'.Subperm l) : UniqueKeys key l' := by
  obtain ⟨m, hperm, hsub⟩ := h
  exact (hperm.map key).nodup_iff.mp (unique.sublist hsub)

theorem UniqueKeys.append (unique : UniqueKeys key l) (unique' : UniqueKeys key l')
    (apart : ∀ a ∈ l, ∀ b ∈ l', key a ≠ key b) : UniqueKeys key (l ++ l') := by
  rw [UniqueKeys, List.map_append]
  apply List.Nodup.append unique unique'
  intro k hk hk'
  obtain ⟨a, ha, rfl⟩ := List.mem_map.mp hk
  obtain ⟨b, hb, heq⟩ := List.mem_map.mp hk'
  exact apart a ha b hb heq.symm

theorem UniqueKeys.eq (unique : UniqueKeys key l) (ha : a ∈ l) (hb : b ∈ l) (h : key a = key b) : a = b :=
  List.inj_on_of_nodup_map unique ha hb h

end UniqueKeys

variable [DecidableEq κ] (key : α → κ)

def remove (k : κ) (l : List α) : List α := l.filter fun a => key a ≠ k

/-- Every entry under the key of `b` becomes `b`; nothing is added. -/
def replace (b : α) (l : List α) : List α := l.map fun a => if key a = key b then b else a

def put (b : α) (l : List α) : List α := remove key (key b) l ++ [b]

def get (k : κ) (l : List α) : Option α := l.find? fun a => key a = k

def occurrences (k : κ) (l : List α) : ℕ := l.countP fun a => key a = k

variable {key} {k : κ} {l : List α} {a b : α}

@[simp] theorem mem_remove : a ∈ remove key k l ↔ a ∈ l ∧ key a ≠ k := by simp [remove]

@[simp] theorem mem_put : a ∈ put key b l ↔ a ∈ l ∧ key a ≠ key b ∨ a = b := by simp [put]

theorem mem_replace : a ∈ replace key b l ↔ a ∈ l ∧ key a ≠ key b ∨ a = b ∧ ∃ c ∈ l, key c = key b := by
  rw [replace, List.mem_map]
  constructor
  · rintro ⟨c, hc, rfl⟩
    by_cases hk : key c = key b
    · exact Or.inr ⟨if_pos hk, c, hc, hk⟩
    · rw [if_neg hk]
      exact Or.inl ⟨hc, hk⟩
  · rintro (⟨ha, hk⟩ | ⟨rfl, c, hc, hk⟩)
    · exact ⟨a, ha, if_neg hk⟩
    · exact ⟨c, hc, if_pos hk⟩

theorem mem_of_get (h : get key k l = some a) : a ∈ l ∧ key a = k := by
  rw [get] at h
  exact ⟨List.mem_of_find?_eq_some h, by simpa using List.find?_some h⟩

theorem get_eq_none : get key k l = none ↔ ∀ a ∈ l, key a ≠ k := by simp [get]

section Keys

theorem keys_replace (b : α) (l : List α) : (replace key b l).map key = l.map key := by
  rw [replace, List.map_map]
  apply List.map_congr_left
  intro a _
  rw [Function.comp_apply]
  split_ifs with h
  · exact h.symm
  · rfl

theorem UniqueKeys.replace (unique : UniqueKeys key l) (b : α) : UniqueKeys key (replace key b l) := by
  rwa [UniqueKeys, keys_replace]

theorem UniqueKeys.remove (unique : UniqueKeys key l) (k : κ) : UniqueKeys key (remove key k l) :=
  unique.sublist List.filter_sublist

theorem UniqueKeys.put (unique : UniqueKeys key l) (b : α) : UniqueKeys key (put key b l) := by
  have hsingle : UniqueKeys key [b] := List.nodup_singleton (key b)
  apply (unique.remove _).append hsingle
  intro a ha c hc
  rw [List.mem_singleton.mp hc]
  exact (mem_remove.mp ha).2

theorem UniqueKeys.get_eq (unique : UniqueKeys key l) (ha : a ∈ l) : get key (key a) l = some a := by
  cases hget : get key (key a) l with
  | none => exact absurd rfl (get_eq_none.mp hget a ha)
  | some b =>
    obtain ⟨hb, hk⟩ := mem_of_get hget
    rw [unique.eq hb ha hk]

end Keys

section Occurrences

@[simp] theorem occurrences_nil (k : κ) : occurrences key k [] = 0 := rfl

theorem occurrences_append (k : κ) (l l' : List α) :
    occurrences key k (l ++ l') = occurrences key k l + occurrences key k l' := List.countP_append

theorem occurrences_singleton (k : κ) (a : α) : occurrences key k [a] = if key a = k then 1 else 0 := by
  simp [occurrences, List.countP_singleton]

theorem occurrences_eq_zero : occurrences key k l = 0 ↔ ∀ a ∈ l, key a ≠ k := by
  simp [occurrences, List.countP_eq_zero]

theorem occurrences_pos : 0 < occurrences key k l ↔ ∃ a ∈ l, key a = k := by
  simp [occurrences, List.countP_pos_iff]

theorem occurrences_eq_count (k : κ) (l : List α) : occurrences key k l = (l.map key).count k := by
  rw [occurrences, List.count, List.countP_map]
  apply List.countP_congr
  intro a _
  simp

theorem UniqueKeys.occurrences_le_one (unique : UniqueKeys key l) (k : κ) : occurrences key k l ≤ 1 := by
  rw [occurrences_eq_count]
  exact List.nodup_iff_count_le_one.mp unique k

theorem UniqueKeys.occurrences_eq_one (unique : UniqueKeys key l) (ha : a ∈ l) : occurrences key (key a) l = 1 :=
  le_antisymm (unique.occurrences_le_one _) (occurrences_pos.mpr ⟨a, ha, rfl⟩)

theorem occurrences_replace (k : κ) (b : α) (l : List α) :
    occurrences key k (replace key b l) = occurrences key k l := by
  rw [occurrences_eq_count, keys_replace, ← occurrences_eq_count]

theorem occurrences_remove (j k : κ) (l : List α) :
    occurrences key j (remove key k l) = if j = k then 0 else occurrences key j l := by
  split_ifs with h
  · rw [occurrences_eq_zero, h]
    exact fun a ha => (mem_remove.mp ha).2
  · rw [occurrences, remove, List.countP_filter, occurrences]
    apply List.countP_congr
    intro a _
    simp only [decide_eq_true_eq, Bool.and_eq_true, and_iff_left_iff_imp]
    rintro rfl
    exact h

theorem occurrences_put (k : κ) (b : α) (l : List α) :
    occurrences key k (put key b l) = if k = key b then 1 else occurrences key k l := by
  rw [put, occurrences_append, occurrences_remove, occurrences_singleton]
  by_cases h : k = key b
  · simp only [h, ↓reduceIte, Nat.zero_add]
  · simp only [h, Ne.symm h, ↓reduceIte, Nat.add_zero]

end Occurrences

section Get

theorem get_cons (k : κ) (a : α) (l : List α) :
    get key k (a :: l) = if key a = k then some a else get key k l := by
  by_cases h : key a = k
  · simp [get, h]
  · simp [get, h]

theorem get_remove (j k : κ) (l : List α) : get key j (remove key k l) = if j = k then none else get key j l := by
  split_ifs with h
  · rw [get_eq_none, h]
    exact fun a ha => (mem_remove.mp ha).2
  · rw [get, remove, List.find?_filter, get]
    apply congrArg (List.find? · l)
    funext a
    simp only [decide_eq_true_eq, decide_eq_decide]
    constructor
    · exact And.right
    · rintro rfl
      exact ⟨h, rfl⟩

theorem get_replace (j : κ) (b : α) (l : List α) :
    get key j (replace key b l) = if j = key b then (get key j l).map fun _ => b else get key j l := by
  induction l with
  | nil => simp [replace, get]
  | cons a l ih =>
    have hcons : replace key b (a :: l) = (if key a = key b then b else a) :: replace key b l := rfl
    rw [hcons, get_cons, get_cons, ih]
    by_cases ha : key a = key b
    · by_cases hj : j = key b
      · simp only [ha, hj, ↓reduceIte, Option.map_some]
      · simp only [ha, hj, Ne.symm hj, ↓reduceIte]
    · by_cases hj : j = key b
      · simp only [ha, hj, ↓reduceIte]
      · simp only [ha, hj, ↓reduceIte]

end Get

end CrashLab.KeyedLists
