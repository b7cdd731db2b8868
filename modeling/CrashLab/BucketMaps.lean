import Mathlib.Tactic

namespace CrashLab.BucketMaps

variable {κ α : Type*}

/-- Under each key stand the values that `R` relates to it, each once, and a key with none has no list. -/
structure Lists (m : κ → Option (List α)) (R : κ → α → Prop) : Prop where
  mem : ∀ k a, a ∈ (m k).getD [] ↔ R k a
  nodup : ∀ k, ((m k).getD []).Nodup
  filled : ∀ k, m k ≠ some []

variable {m : κ → Option (List α)} {R S : κ → α → Prop} {key : α → κ} {P : α → Prop} {k : κ} {a : α}

theorem lists_empty : Lists (fun _ : κ => (none : Option (List α))) fun _ _ => False :=
  ⟨by simp, by simp, by simp⟩

theorem Lists.congr (h : Lists m R) (hiff : ∀ k a, R k a ↔ S k a) : Lists m S :=
  ⟨fun k a => (h.mem k a).trans (hiff k a), h.nodup, h.filled⟩

theorem Lists.isSome_iff (h : Lists m R) (k : κ) : (m k).isSome = true ↔ ∃ a, R k a := by
  cases hm : m k with
  | none =>
    have hnone : ∀ a, ¬ R k a := by
      intro a
      rw [← h.mem, hm]
      exact List.not_mem_nil
    simp [hnone]
  | some l =>
    have hfilled : l ≠ [] := fun hl => h.filled k (by rw [hm, hl])
    obtain ⟨a, ha⟩ := List.exists_mem_of_ne_nil l hfilled
    have hR : R k a := by rw [← h.mem, hm]; exact ha
    simp only [Option.isSome_some, true_iff]
    exact ⟨a, hR⟩

variable [DecidableEq κ]

def push (m : κ → Option (List α)) (k : κ) (a : α) : κ → Option (List α) :=
  match m k with
  | some l => Function.update m k (some (l ++ [a]))
  | none => Function.update m k (some [a])

theorem getD_push (m : κ → Option (List α)) (k j : κ) (a : α) :
    (push m k a j).getD [] = if j = k then (m k).getD [] ++ [a] else (m j).getD [] := by
  unfold push
  by_cases hj : j = k
  · subst hj
    cases hm : m j <;> simp
  · cases hm : m k <;> simp [hj]

theorem Lists.push (h : Lists m R) (hnew : ¬ R k a) :
    Lists (push m k a) fun j b => R j b ∨ j = k ∧ b = a := by
  refine ⟨fun j b => ?_, fun j => ?_, fun j hj => ?_⟩
  · rw [getD_push]
    split_ifs with hk
    · simp [hk, h.mem]
    · simp [hk, h.mem]
  · rw [getD_push]
    split_ifs with hk
    · rw [List.nodup_append_comm, List.singleton_append, List.nodup_cons, h.mem]
      exact ⟨hnew, h.nodup k⟩
    · exact h.nodup j
  · have hfilled := h.filled j
    unfold BucketMaps.push at hj
    by_cases hk : j = k
    · subst hk
      cases hm : m j <;> simp [hm] at hj
    · cases hm : m k <;> simp [hm, hk] at hj <;> exact hfilled hj

theorem Lists.add (h : Lists m fun k b => key b = k ∧ P b) (hnew : ¬ P a) :
    Lists (BucketMaps.push m (key a) a) fun k b => key b = k ∧ (P b ∨ b = a) := by
  apply (h.push fun hold => hnew hold.2).congr
  intro k b
  constructor
  · rintro (⟨hk, hP⟩ | ⟨rfl, rfl⟩)
    · exact ⟨hk, Or.inl hP⟩
    · exact ⟨rfl, Or.inr rfl⟩
  · rintro ⟨rfl, hP | rfl⟩
    · exact Or.inl ⟨rfl, hP⟩
    · exact Or.inr ⟨rfl, rfl⟩

variable [BEq α]

/-- One `a` is taken from the list under `k`; an empty list does not stay. -/
def pull (m : κ → Option (List α)) (k : κ) (a : α) : κ → Option (List α) :=
  match m k with
  | none => m
  | some l => if l.erase a = [] then Function.update m k none else Function.update m k (some (l.erase a))

theorem getD_pull (m : κ → Option (List α)) (k j : κ) (a : α) :
    (pull m k a j).getD [] = if j = k then ((m k).getD []).erase a else (m j).getD [] := by
  unfold pull
  by_cases hj : j = k
  · subst hj
    cases hm : m j with
    | none => simp [hm]
    | some l =>
      by_cases hl : l.erase a = []
      · simp [hl]
      · simp [hl]
  · cases hm : m k with
    | none => simp [hj]
    | some l =>
      by_cases hl : l.erase a = []
      · simp [hl, hj]
      · simp [hl, hj]

variable [LawfulBEq α]

theorem Lists.pull (h : Lists m R) (k : κ) (a : α) :
    Lists (pull m k a) fun j b => R j b ∧ ¬(j = k ∧ b = a) := by
  refine ⟨fun j b => ?_, fun j => ?_, fun j hj => ?_⟩
  · rw [getD_pull]
    split_ifs with hk
    · rw [(h.nodup k).mem_erase_iff, h.mem, hk]
      simp [and_comm]
    · simp [hk, h.mem]
  · rw [getD_pull]
    split_ifs with hk
    · exact (h.nodup k).erase a
    · exact h.nodup j
  · have hfilled := h.filled j
    unfold BucketMaps.pull at hj
    cases hm : m k with
    | none => exact hfilled (by simpa [hm] using hj)
    | some l =>
      by_cases hk : j = k
      · subst hk
        by_cases hl : l.erase a = [] <;> simp [hm, hl] at hj
      · by_cases hl : l.erase a = [] <;> simp [hm, hl, hk] at hj <;> exact hfilled hj

theorem Lists.drop (h : Lists m fun k b => key b = k ∧ P b) (a : α) :
    Lists (BucketMaps.pull m (key a) a) fun k b => key b = k ∧ (P b ∧ b ≠ a) := by
  apply (h.pull (key a) a).congr
  intro k b
  constructor
  · rintro ⟨⟨rfl, hP⟩, hne⟩
    exact ⟨rfl, hP, fun hb => hne ⟨by rw [hb], hb⟩⟩
  · rintro ⟨rfl, hP, hne⟩
    exact ⟨⟨rfl, hP⟩, fun hboth => hne hboth.2⟩

end CrashLab.BucketMaps
