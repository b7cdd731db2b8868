import Mathlib.Tactic

namespace CrashLab.Batches

variable {α : Type*}

structure Batch (α : Type*) where
  owned : α → Prop
  executed : List α
  finished : Prop

structure Batch.Sound (done : α → Prop) (b : Batch α) : Prop where
  nodup : b.executed.Nodup
  fresh : ∀ x ∈ b.executed, ¬ done x
  finished : b.finished → ∀ x, b.owned x → done x ∨ x ∈ b.executed

def executed (bs : List (Batch α)) : List α := bs.flatMap Batch.executed

@[simp] theorem executed_append (as bs : List (Batch α)) :
    executed (as ++ bs) = executed as ++ executed bs := List.flatMap_append

@[simp] theorem executed_singleton (b : Batch α) : executed [b] = b.executed := by
  simp only [executed, List.flatMap_cons, List.flatMap_nil, List.append_nil]

def Log (bs : List (Batch α)) : Prop :=
  ∀ pre b, pre ++ [b] <+: bs → b.Sound (· ∈ executed pre)

theorem log_nil : Log ([] : List (Batch α)) := by
  intro pre b h
  simp at h

theorem log_concat {bs : List (Batch α)} {b : Batch α} (h : Log bs)
    (hb : b.Sound (· ∈ executed bs)) : Log (bs ++ [b]) := by
  intro pre c hpre
  rcases List.prefix_concat_iff.mp hpre with heq | hinit
  · obtain ⟨rfl, hc⟩ := List.append_inj' heq rfl
    obtain rfl := List.singleton_inj.mp hc
    exact hb
  · exact h pre c hinit

theorem Log.of_append {as bs : List (Batch α)} (h : Log (as ++ bs)) : Log as :=
  fun pre b hpre => h pre b (hpre.trans (List.prefix_append as bs))

theorem Log.nodup {bs : List (Batch α)} (h : Log bs) : (executed bs).Nodup := by
  induction bs using List.reverseRecOn with
  | nil => exact List.nodup_nil
  | append_singleton bs b ih =>
    have hb := h bs b (List.prefix_refl _)
    rw [executed_append, executed_singleton]
    apply List.Nodup.append (ih h.of_append) hb.nodup
    intro x hdone hx
    exact hb.fresh x hx hdone

theorem Log.mem_of_finished {bs : List (Batch α)} (h : Log bs) {b : Batch α} (hb : b ∈ bs)
    (hf : b.finished) {x : α} (hx : b.owned x) : x ∈ executed bs := by
  obtain ⟨pre, post, rfl⟩ := List.append_of_mem hb
  have hs := h pre b ⟨post, by simp⟩
  rw [executed_append, List.mem_append]
  rcases hs.finished hf x hx with hpre | hin
  · exact Or.inl hpre
  · exact Or.inr (List.mem_flatMap.mpr ⟨b, by simp, hin⟩)

theorem Log.count_eq_one [DecidableEq α] {bs : List (Batch α)} (h : Log bs) {x : α}
    (hx : ∃ b ∈ bs, b.finished ∧ b.owned x) : (executed bs).count x = 1 := by
  obtain ⟨b, hb, hf, ho⟩ := hx
  exact List.count_eq_one_of_mem h.nodup (h.mem_of_finished hb hf ho)

end CrashLab.Batches
