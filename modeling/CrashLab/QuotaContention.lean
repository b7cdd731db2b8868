import CrashLab.Capacity

namespace CrashLab.Capacity

open Histories Interleavings CampaignClass

/-- `compare_exchange_weak(current, new)` on a cell that holds `cell`: the result and the cell
afterwards. A spurious failure observes the value it was asked to replace. -/
def compareExchangeWeak (cell current new : ℕ) (spurious : Bool) : Except ℕ ℕ × ℕ :=
  if cell = current ∧ spurious = false then (.ok current, new) else (.error cell, cell)

structure Pool where
  remaining : ℕ
  decisions : List (CampaignClass × ThrottleDecision)
deriving DecidableEq, Repr

inductive Caller where
  | idle
  | loop (cls : CampaignClass) (reserved current : ℕ)
deriving DecidableEq, Repr

inductive Act where
  | call (cls : CampaignClass)
  | iterate (spurious : Bool)
deriving DecidableEq, Repr

def Pool.record (pool : Pool) (cls : CampaignClass) (decision : ThrottleDecision) : Pool :=
  { pool with decisions := pool.decisions ++ [(cls, decision)] }

/-- `admit_seed` cut into its atomic steps: the load, and then one compare-exchange an iteration. -/
def admitSeed (allowance : ℕ) : Act → Caller → Pool → Option (Caller × Pool)
  | .call cls, .idle, pool =>
    let reserved := allowance - effectiveLimit allowance cls
    some (.loop cls reserved pool.remaining, pool)
  | .iterate spurious, .loop cls reserved current, pool =>
    if current ≤ reserved then some (.idle, pool.record cls (.throttled current reserved))
    else
      match compareExchangeWeak pool.remaining current (current - 1) spurious with
      | (.ok _, remaining) => some (.idle, { pool with remaining }.record cls .proceed)
      | (.error observed, remaining) => some (.loop cls reserved observed, { pool with remaining })
  | _, _, _ => none

def start (W : Type) (allowance : ℕ) : Config W Caller Pool := ⟨fun _ => .idle, ⟨allowance, []⟩⟩

def Pool.admissions (pool : Pool) (P : CampaignClass → Prop) [DecidablePred P] : ℕ :=
  pool.decisions.countP fun d => P d.1 ∧ d.2 = .proceed

def Pool.proceeds (pool : Pool) : ℕ := pool.admissions fun _ => True

section Admissions

variable (P : CampaignClass → Prop) [DecidablePred P]

theorem admissions_proceed (pool : Pool) (cls : CampaignClass) :
    (pool.record cls .proceed).admissions P = pool.admissions P + if P cls then 1 else 0 := by
  simp [Pool.admissions, Pool.record, List.countP_append, List.countP_cons]

theorem admissions_throttled (pool : Pool) (cls : CampaignClass) (remaining reserved : ℕ) :
    (pool.record cls (.throttled remaining reserved)).admissions P = pool.admissions P := by
  simp [Pool.admissions, Pool.record, List.countP_append]

theorem admissions_add_le (Q R : CampaignClass → Prop) [DecidablePred Q] [DecidablePred R]
    (hdisjoint : ∀ cls, ¬ (P cls ∧ Q cls)) (hP : ∀ cls, P cls → R cls) (hQ : ∀ cls, Q cls → R cls)
    (pool : Pool) : pool.admissions P + pool.admissions Q ≤ pool.admissions R := by
  unfold Pool.admissions
  induction pool.decisions with
  | nil => exact le_refl _
  | cons d l ih =>
    have hone : (if P d.1 ∧ d.2 = .proceed then 1 else 0) +
        (if Q d.1 ∧ d.2 = .proceed then 1 else 0) ≤ if R d.1 ∧ d.2 = .proceed then 1 else 0 := by
      by_cases hp : P d.1
      · have hq : ¬ Q d.1 := fun hq => hdisjoint d.1 ⟨hp, hq⟩
        simp [hp, hq, hP d.1 hp]
      · by_cases hq : Q d.1
        · simp [hp, hq, hQ d.1 hq]
        · simp [hp, hq]
    simp only [List.countP_cons, decide_eq_true_eq]
    omega

theorem admissions_le_proceeds (pool : Pool) : pool.admissions P ≤ pool.proceeds := by
  apply List.countP_mono_left
  intro d _ hd
  simp only [decide_eq_true_eq] at hd ⊢
  exact ⟨trivial, hd.2⟩

end Admissions

def Caller.Informed (allowance : ℕ) : Caller → Prop
  | .idle => True
  | .loop cls reserved _ => reserved = reservedFor allowance cls

structure Accounted (allowance : ℕ) (pool : Pool) : Prop where
  spent : pool.remaining + pool.proceeds = allowance
  limited : ∀ cls, pool.admissions (Yields cls) ≤ effectiveLimit allowance cls

theorem admitSeed_cases {allowance : ℕ} {act : Act} {l l' : Caller} {pool pool' : Pool}
    (h : admitSeed allowance act l pool = some (l', pool')) (hl : l.Informed allowance) :
    l'.Informed allowance ∧
    (pool' = pool ∨
    (∃ cls remaining reserved, pool' = pool.record cls (.throttled remaining reserved)) ∨
    ∃ cls, reservedFor allowance cls < pool.remaining ∧
      pool' = { pool with remaining := pool.remaining - 1 }.record cls .proceed) := by
  cases act with
  | call cls =>
    cases l with
    | idle =>
      simp only [admitSeed, Option.some_inj, Prod.mk.injEq] at h
      obtain ⟨rfl, rfl⟩ := h
      exact ⟨rfl, Or.inl rfl⟩
    | loop _ _ _ => simp [admitSeed] at h
  | iterate spurious =>
    cases l with
    | idle => simp [admitSeed] at h
    | loop cls reserved current =>
      simp only [Caller.Informed] at hl
      subst hl
      simp only [admitSeed, compareExchangeWeak] at h
      split_ifs at h with hle hcas
      · obtain ⟨rfl, rfl⟩ := Prod.mk.inj (Option.some_inj.mp h)
        exact ⟨trivial, Or.inr (Or.inl ⟨cls, current, _, rfl⟩)⟩
      · obtain ⟨rfl, rfl⟩ := Prod.mk.inj (Option.some_inj.mp h)
        obtain ⟨rfl, -⟩ := hcas
        exact ⟨trivial, Or.inr (Or.inr ⟨cls, not_le.mp hle, rfl⟩)⟩
      · obtain ⟨rfl, rfl⟩ := Prod.mk.inj (Option.some_inj.mp h)
        exact ⟨rfl, Or.inl rfl⟩

theorem Accounted.proceed {allowance : ℕ} {pool : Pool} (h : Accounted allowance pool)
    {cls : CampaignClass} (hroom : reservedFor allowance cls < pool.remaining) :
    Accounted allowance ({ pool with remaining := pool.remaining - 1 }.record cls .proceed) := by
  have hspent := h.spent
  constructor
  case spent =>
    rw [Pool.proceeds, admissions_proceed, if_pos trivial]
    show pool.remaining - 1 + (pool.proceeds + 1) = allowance
    omega
  case limited =>
    intro other
    rw [admissions_proceed]
    have hold : ({ pool with remaining := pool.remaining - 1 } : Pool).admissions (Yields other) =
      pool.admissions (Yields other) := rfl
    rw [hold]
    split_ifs with hyields
    · -- the admission leaves the headroom of `other`, so all proceeds together fit its limit
      have hmono := reservedFor_mono allowance hyields
      have hcount := admissions_le_proceeds (Yields other) pool
      have hlimit := effectiveLimit_le allowance other
      rw [reservedFor] at hmono
      omega
    · exact h.limited other

theorem admitSeed_keeps (allowance : ℕ) (act : Act) (l : Caller) (pool : Pool) (l' : Caller)
    (pool' : Pool) (h : admitSeed allowance act l pool = some (l', pool'))
    (hpool : Accounted allowance pool) (hl : l.Informed allowance) :
    Accounted allowance pool' ∧ l'.Informed allowance := by
  obtain ⟨hl', rfl | ⟨cls, remaining, reserved, rfl⟩ | ⟨cls, hroom, rfl⟩⟩ := admitSeed_cases h hl
  · exact ⟨hpool, hl'⟩
  · refine ⟨⟨?_, fun other => ?_⟩, hl'⟩
    · rw [Pool.proceeds, admissions_throttled]
      exact hpool.spent
    · rw [admissions_throttled]
      exact hpool.limited other
  · exact ⟨hpool.proceed hroom, hl'⟩

theorem accounted_start (W : Type) (allowance : ℕ) :
    Holds (Accounted allowance) (Caller.Informed allowance) (start W allowance) := by
  refine ⟨⟨rfl, fun cls => ?_⟩, fun _ => trivial⟩
  simp [start, Pool.admissions]

theorem quota_under_contention {W : Type} [DecidableEq W] (allowance : ℕ) (schedule : List (W × Act)) :
    let c := run (step (admitSeed allowance)) (start W allowance) schedule
    c.shared.proceeds ≤ allowance ∧
    c.shared.remaining = allowance - c.shared.proceeds ∧
    (∀ w act cls, (step (admitSeed allowance) c (w, act)).shared.decisions =
        c.shared.decisions ++ [(cls, .proceed)] →
      allowance - effectiveLimit allowance cls ≤
        (step (admitSeed allowance) c (w, act)).shared.remaining) ∧
    c.shared.admissions (· = deep) ≤ effectiveLimit allowance deep ∧
    c.shared.admissions (· = deep) + c.shared.admissions (· = nightly) ≤
      effectiveLimit allowance nightly := by
  intro c
  have hc : Holds (Accounted allowance) (Caller.Informed allowance) c :=
    (accounted_start W allowance).run (admitSeed_keeps allowance) schedule
  have hspent := hc.1.spent
  refine ⟨by omega, by omega, ?_, ?_, ?_⟩
  · intro w act cls
    unfold step
    split
    · rename_i l pool heq
      obtain ⟨-, rfl | ⟨other, remaining, reserved, rfl⟩ | ⟨other, hroom, rfl⟩⟩ :=
        admitSeed_cases heq (hc.2 w)
      · intro h
        simp at h
      · intro h
        simp [Pool.record] at h
      · intro h
        obtain rfl : other = cls := by simpa [Pool.record] using h
        simp only [Pool.record]
        rw [reservedFor] at hroom
        omega
    · intro h
      simp at h
  · refine le_trans (List.countP_mono_left fun d _ hd => ?_) (hc.1.limited deep)
    simp only [decide_eq_true_eq] at hd ⊢
    exact ⟨hd.1 ▸ le_refl _, hd.2⟩
  · refine le_trans (admissions_add_le _ _ _ ?_ ?_ ?_ _) (hc.1.limited nightly)
    · rintro cls ⟨rfl, hcls⟩
      cases hcls
    · rintro cls rfl
      decide
    · rintro cls rfl
      decide

end CrashLab.Capacity
