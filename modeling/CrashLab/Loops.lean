import Mathlib.Tactic

namespace CrashLab.Loops

variable {σ ρ τ π : Type*}

inductive Flow (ρ σ : Type*) where
  | next (s : σ)
  | stop (r : ρ)

namespace Flow

def All (P : ρ → Prop) (Q : σ → Prop) : Flow ρ σ → Prop
  | .next s => Q s
  | .stop r => P r

@[simp] theorem all_next (P : ρ → Prop) (Q : σ → Prop) (s : σ) : (next s).All P Q ↔ Q s := Iff.rfl

theorem All.imp {P P' : ρ → Prop} {Q Q' : σ → Prop} (hp : ∀ r, P r → P' r)
    (hq : ∀ s, Q s → Q' s) {f : Flow ρ σ} (h : f.All P Q) : f.All P' Q' := by
  cases f with
  | next s => exact hq s h
  | stop r => exact hp r h

def orElse (done : σ → ρ) : Flow ρ σ → ρ
  | .next s => done s
  | .stop r => r

theorem All.orElse {P : ρ → Prop} {Q : σ → Prop} {f : Flow ρ σ} {done : σ → ρ}
    (h : f.All P Q) (hd : ∀ s, Q s → P (done s)) : P (f.orElse done) := by
  cases f with
  | next s => exact hd s h
  | stop r => exact h

inductive Rel (P : ρ → π → Prop) (Q : σ → τ → Prop) : Flow ρ σ → Flow π τ → Prop
  | next {s : σ} {t : τ} (h : Q s t) : Rel P Q (.next s) (.next t)
  | stop {r : ρ} {q : π} (h : P r q) : Rel P Q (.stop r) (.stop q)

theorem Rel.orElse {P : ρ → π → Prop} {Q : σ → τ → Prop} {f : Flow ρ σ} {g : Flow π τ}
    {done : σ → ρ} {done' : τ → π} (h : Rel P Q f g) (hd : ∀ s t, Q s t → P (done s) (done' t)) :
    P (f.orElse done) (g.orElse done') := by
  cases h with
  | next h => exact hd _ _ h
  | stop h => exact h

end Flow

/-- `for i in lo..lo + n`, with early return when the body stops. -/
def forRange (body : ℕ → σ → Flow ρ σ) : ℕ → ℕ → σ → Flow ρ σ
  | _, 0, s => .next s
  | lo, n + 1, s =>
    match body lo s with
    | .next t => forRange body (lo + 1) n t
    | .stop r => .stop r

theorem forRange_rule {body : ℕ → σ → Flow ρ σ} (I : ℕ → σ → Prop) (P : ρ → Prop) (n : ℕ)
    {lo : ℕ} {s : σ} (start : I lo s)
    (step : ∀ i s, lo ≤ i → i < lo + n → I i s → (body i s).All P (I (i + 1))) :
    (forRange body lo n s).All P (I (lo + n)) := by
  induction n generalizing lo s with
  | zero => exact start
  | succ n ih =>
    have hbody := step lo s (le_refl _) (by omega) start
    rw [forRange]
    cases hb : body lo s with
    | stop r => rw [hb] at hbody; exact hbody
    | next t =>
      rw [hb] at hbody
      have hrest := ih hbody (fun i u hi hn => step i u (by omega) (by omega))
      simpa only [Nat.add_assoc, Nat.add_comm 1 n] using hrest

theorem forRange_first {body : ℕ → σ → Flow ρ σ} (pass : ℕ → Prop) (I : ℕ → σ → Prop)
    (P : ℕ → ρ → Prop) (n : ℕ) {s : σ} (start : I 0 s)
    (step : ∀ i s, i < n → I i s →
      (body i s).All (fun r => ¬ pass i ∧ P i r) (fun t => pass i ∧ I (i + 1) t)) :
    (forRange body 0 n s).All (fun r => ∃ k < n, (∀ j < k, pass j) ∧ ¬ pass k ∧ P k r)
      (fun t => (∀ j < n, pass j) ∧ I n t) := by
  have hloop := @forRange_rule _ _ body (fun i s => (∀ j < i, pass j) ∧ I i s)
    (fun r => ∃ k < n, (∀ j < k, pass j) ∧ ¬ pass k ∧ P k r) n 0 s
    ⟨fun j hj => absurd hj (Nat.not_lt_zero j), start⟩ ?_
  · rwa [Nat.zero_add] at hloop
  intro i s _ hi h
  apply (step i s (by omega) h.2).imp
  · intro r hr
    exact ⟨i, by omega, h.1, hr⟩
  · rintro t ⟨hpass, ht⟩
    refine ⟨fun j hj => ?_, ht⟩
    rcases Nat.lt_succ_iff_lt_or_eq.mp hj with hj | rfl
    · exact h.1 j hj
    · exact hpass

theorem forRange_rel {body : ℕ → σ → Flow ρ σ} {body' : ℕ → τ → Flow π τ}
    (R : ℕ → σ → τ → Prop) (P : ρ → π → Prop) (n : ℕ) {lo : ℕ} {s : σ} {t : τ} (start : R lo s t)
    (step : ∀ i s t, lo ≤ i → i < lo + n → R i s t → (body i s).Rel P (R (i + 1)) (body' i t)) :
    (forRange body lo n s).Rel P (R (lo + n)) (forRange body' lo n t) := by
  induction n generalizing lo s t with
  | zero => exact .next start
  | succ n ih =>
    have hbody := step lo s t (le_refl _) (by omega) start
    rw [forRange, forRange]
    generalize body lo s = f at hbody ⊢
    generalize body' lo t = g at hbody ⊢
    cases hbody with
    | stop h => exact .stop h
    | next h =>
      have hrest := ih h (fun i u v hi hn => step i u v (by omega) (by omega))
      simpa only [Nat.add_assoc, Nat.add_comm 1 n] using hrest

end CrashLab.Loops
