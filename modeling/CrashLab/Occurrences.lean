import Mathlib.Tactic

namespace CrashLab.Occurrences

variable {α : Type*}

section AddNew

variable [DecidableEq α]

def addNew (acc : List α) (a : α) : List α := if a ∈ acc then acc else acc ++ [a]

def addAllNew (acc new : List α) : List α := new.foldl addNew acc

@[simp] theorem mem_addNew {acc : List α} {a b : α} : b ∈ addNew acc a ↔ b ∈ acc ∨ b = a := by
  unfold addNew
  split_ifs with h
  · constructor
    · exact Or.inl
    · rintro (hb | rfl)
      · exact hb
      · exact h
  · rw [List.mem_append, List.mem_singleton]

@[simp] theorem mem_addAllNew {acc new : List α} {b : α} : b ∈ addAllNew acc new ↔ b ∈ acc ∨ b ∈ new := by
  induction new generalizing acc with
  | nil => simp [addAllNew]
  | cons a new ih =>
    have hcons : addAllNew acc (a :: new) = addAllNew (addNew acc a) new := rfl
    rw [hcons, ih, mem_addNew, List.mem_cons, or_assoc]

theorem count_addNew (acc : List α) (a b : α) :
    (addNew acc a).count b = if b = a ∧ a ∉ acc then 1 else acc.count b := by
  unfold addNew
  by_cases h : a ∈ acc
  · rw [if_pos h, if_neg fun hb => hb.2 h]
  · rw [if_neg h, List.count_append, List.count_singleton]
    by_cases hb : b = a
    · subst hb
      simp [h, List.count_eq_zero_of_not_mem h]
    · have hab : ¬a = b := fun heq => hb heq.symm
      simp [hb, hab]

theorem count_addAllNew (acc new : List α) (b : α) :
    (addAllNew acc new).count b = if b ∈ acc then acc.count b else if b ∈ new then 1 else 0 := by
  induction new generalizing acc with
  | nil =>
    by_cases hb : b ∈ acc
    · rw [if_pos hb, addAllNew, List.foldl_nil]
    · rw [if_neg hb, if_neg List.not_mem_nil, addAllNew, List.foldl_nil, List.count_eq_zero_of_not_mem hb]
  | cons a new ih =>
    have hcons : addAllNew acc (a :: new) = addAllNew (addNew acc a) new := rfl
    rw [hcons, ih, count_addNew]
    simp only [mem_addNew, List.mem_cons]
    by_cases hb : b ∈ acc
    · have hnew : ¬(b = a ∧ a ∉ acc) := fun h => h.2 (h.1 ▸ hb)
      simp only [hb, true_or, if_true, if_neg hnew]
    · by_cases hba : b = a
      · subst hba
        simp [hb]
      · simp only [hb, hba, or_self, false_and, if_false, false_or]

theorem addAllNew_comm_perm (acc new new' : List α) :
    (addAllNew (addAllNew acc new) new').Perm (addAllNew (addAllNew acc new') new) := by
  rw [List.perm_iff_count]
  intro b
  simp only [count_addAllNew, mem_addAllNew]
  split_ifs <;> tauto

theorem addAllNew_of_subset {acc new : List α} (h : ∀ a ∈ new, a ∈ acc) : addAllNew acc new = acc := by
  induction new with
  | nil => rfl
  | cons a new ih =>
    rw [List.forall_mem_cons] at h
    have hcons : addAllNew acc (a :: new) = addAllNew (addNew acc a) new := rfl
    rw [hcons, addNew, if_pos h.1, ih h.2]

theorem nodup_addAllNew {acc : List α} (h : acc.Nodup) (new : List α) : (addAllNew acc new).Nodup := by
  rw [List.nodup_iff_count_le_one] at h ⊢
  intro b
  rw [count_addAllNew]
  split_ifs
  · exact h b
  · exact le_rfl
  · exact Nat.zero_le 1

end AddNew

section CountAfter

variable (P Q : List α → α → Prop) [∀ earlier x, Decidable (P earlier x)] [∀ earlier x, Decidable (Q earlier x)]

/-- How many items satisfy `P` of the items before them and themselves. -/
def countAfter : List α → List α → ℕ
  | _, [] => 0
  | earlier, x :: xs => (if P earlier x then 1 else 0) + countAfter (earlier ++ [x]) xs

attribute [grind =] countAfter

variable {P Q}

theorem countAfter_congr (h : ∀ earlier x, P earlier x ↔ Q earlier x) (earlier xs : List α) :
    countAfter P earlier xs = countAfter Q earlier xs := by
  induction xs generalizing earlier with
  | nil => rfl
  | cons x xs ih => simp only [countAfter, ih, h]

variable (P Q)

theorem countAfter_split (earlier xs : List α) :
    countAfter P earlier xs = countAfter (fun e x => P e x ∧ Q e x) earlier xs +
      countAfter (fun e x => P e x ∧ ¬Q e x) earlier xs := by
  induction xs generalizing earlier with
  | nil => rfl
  | cons x xs ih =>
    simp only [countAfter, ih]
    by_cases hp : P earlier x <;> by_cases hq : Q earlier x <;> simp only [hp, hq] <;> simp <;> omega

theorem countAfter_add_not (earlier xs : List α) :
    countAfter P earlier xs + countAfter (fun e x => ¬P e x) earlier xs = xs.length := by
  induction xs generalizing earlier with
  | nil => rfl
  | cons x xs ih =>
    have := ih (earlier ++ [x])
    rw [countAfter, countAfter, List.length_cons]
    split_ifs <;> omega

variable {P}

theorem countAfter_eq_zero_iff {earlier xs : List α} :
    countAfter P earlier xs = 0 ↔ ∀ before x after, xs = before ++ x :: after → ¬P (earlier ++ before) x := by
  induction xs generalizing earlier with
  | nil => simp [countAfter]
  | cons y ys ih =>
    rw [countAfter, Nat.add_eq_zero_iff, ih]
    constructor
    · rintro ⟨hhead, htail⟩ before x after heq
      cases before with
      | nil =>
        obtain ⟨rfl, rfl⟩ := List.cons.inj heq
        rw [List.append_nil]
        intro hp
        simp [hp] at hhead
      | cons z before =>
        obtain ⟨rfl, rfl⟩ := List.cons.inj heq
        have h := htail before x after rfl
        rwa [List.append_assoc, List.singleton_append] at h
    · intro h
      constructor
      · have hp := h [] y ys rfl
        rw [List.append_nil] at hp
        rw [if_neg hp]
      · rintro before x after rfl
        have hp := h (y :: before) x after rfl
        rwa [List.append_assoc, List.singleton_append]

end CountAfter

end CrashLab.Occurrences
