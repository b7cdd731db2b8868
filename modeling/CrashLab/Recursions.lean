import Mathlib.Tactic

namespace CrashLab.Recursions

variable {α : Type*} {calls : α → List α} {a b : α}

def Within (calls : α → List α) : ℕ → α → Prop
  | 0, _ => False
  | depth + 1, a => ∀ b ∈ calls a, Within calls depth b

theorem Within.mono {m n : ℕ} (h : Within calls m a) (hle : m ≤ n) : Within calls n a := by
  induction m generalizing n a with
  | zero => exact h.elim
  | succ m ih =>
    obtain ⟨k, rfl⟩ := Nat.exists_eq_add_of_le hle
    rw [Nat.add_right_comm]
    exact fun b hb => ih (h b hb) (by omega)

theorem within_all (as : List α) (h : ∀ a ∈ as, ∃ n, Within calls n a) : ∃ n, ∀ a ∈ as, Within calls n a := by
  induction as with
  | nil => exact ⟨0, by simp⟩
  | cons a as ih =>
    rw [List.forall_mem_cons] at h
    obtain ⟨m, hm⟩ := h.1
    obtain ⟨n, hn⟩ := ih h.2
    refine ⟨max m n, List.forall_mem_cons.mpr ⟨hm.mono (le_max_left m n), ?_⟩⟩
    exact fun b hb => (hn b hb).mono (le_max_right m n)

def Calls (calls : α → List α) (a b : α) : Prop := b ∈ calls a

theorem within_iff_acc : (∃ n, Within calls n a) ↔ Acc (flip (Calls calls)) a := by
  constructor
  · rintro ⟨n, hn⟩
    induction n generalizing a with
    | zero => exact hn.elim
    | succ n ih => exact Acc.intro a fun b hb => ih (hn b hb)
  · intro h
    induction h with
    | intro a _ ih =>
      obtain ⟨n, hn⟩ := within_all (calls a) fun b hb => ih b hb
      exact ⟨n + 1, hn⟩

section Cycles

open Relation

variable {r : α → α → Prop}

theorem not_acc_of_cycle (h : TransGen r a a) : ¬ Acc (flip r) a := by
  intro hacc
  have hclosure : Acc (TransGen (flip r)) a := hacc.transGen
  induction hclosure with
  | intro a _ ih => exact ih a (transGen_swap.mp h) h hacc

theorem acc_of_reached (h : Acc (flip r) a) (hreach : ReflTransGen r a b) : Acc (flip r) b := by
  induction hreach with
  | refl => exact h
  | tail _ hlast ih => exact ih.inv hlast

theorem acc_iff_no_cycle (hfinite : {b | ReflTransGen r a b}.Finite) :
    Acc (flip r) a ↔ ∀ b, ReflTransGen r a b → ¬ TransGen r b b := by
  constructor
  · intro h b hb hcycle
    exact not_acc_of_cycle hcycle (acc_of_reached h hb)
  · intro h
    have : Finite {b // ReflTransGen r a b} := hfinite
    let below (c b : {b // ReflTransGen r a b}) : Prop := TransGen (flip r) c.1 b.1
    have : IsTrans _ below := ⟨fun _ _ _ hcb hba => TransGen.trans hcb hba⟩
    have : Std.Irrefl below := ⟨fun b hb => h b.1 b.2 (transGen_swap.mp hb)⟩
    have hwf : WellFounded below := Finite.wellFounded_of_trans_of_irrefl below
    have hacc : ∀ b : {b // ReflTransGen r a b}, Acc (flip r) b.1 := by
      intro b
      induction b using hwf.induction with
      | _ b ih => exact Acc.intro b.1 fun c hc => ih ⟨c, b.2.tail hc⟩ (TransGen.single hc)
    exact hacc ⟨a, .refl⟩

end Cycles

end CrashLab.Recursions
