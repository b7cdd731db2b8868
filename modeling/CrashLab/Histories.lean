import Mathlib.Tactic

namespace CrashLab.Histories

variable {σ α : Type*} (step : σ → α → σ)

def run (s : σ) (as : List α) : σ := as.foldl step s

@[simp] theorem run_nil (s : σ) : run step s [] = s := rfl

@[simp] theorem run_cons (s : σ) (a : α) (as : List α) :
    run step s (a :: as) = run step (step s a) as := rfl

theorem run_append (s : σ) (as bs : List α) :
    run step s (as ++ bs) = run step (run step s as) bs := List.foldl_append

variable {step}

theorem run_invariant {I : σ → Prop} (keeps : ∀ s a, I s → I (step s a)) {s : σ} (start : I s)
    (as : List α) : I (run step s as) := by
  induction as generalizing s with
  | nil => exact start
  | cons a as ih => exact ih (keeps s a start)

theorem run_eq_self {s : σ} {as : List α} (h : ∀ a ∈ as, step s a = s) : run step s as = s := by
  induction as with
  | nil => rfl
  | cons a as ih =>
    rw [List.forall_mem_cons] at h
    rw [run_cons, h.1, ih h.2]

variable (step)

/-- `T` holds of every step of the run, in the state the step starts from. -/
def EachStep (T : σ → α → Prop) : σ → List α → Prop
  | _, [] => True
  | s, a :: as => T s a ∧ EachStep T (step s a) as

instance EachStep.decidable {T : σ → α → Prop} [∀ s a, Decidable (T s a)] :
    ∀ (s : σ) (as : List α), Decidable (EachStep step T s as)
  | _, [] => isTrue trivial
  | s, a :: as =>
    have : Decidable (EachStep step T (step s a) as) := EachStep.decidable (step s a) as
    inferInstanceAs (Decidable (T s a ∧ EachStep step T (step s a) as))

def Always (P : σ → Prop) : σ → List α → Prop
  | s, [] => P s
  | s, a :: as => P s ∧ Always P (step s a) as

variable {step}

theorem EachStep.invariant {I : σ → Prop} {T : σ → α → Prop} (keeps : ∀ s a, I s → T s a → I (step s a))
    {s : σ} (start : I s) {as : List α} (h : EachStep step T s as) : I (run step s as) := by
  induction as generalizing s with
  | nil => exact start
  | cons a as ih => exact ih (keeps s a start h.1) h.2

theorem EachStep.imp {I : σ → Prop} {T C : σ → α → Prop} (keeps : ∀ s a, I s → T s a → I (step s a))
    (imp : ∀ s a, I s → T s a → C s a) {s : σ} (start : I s) {as : List α} (h : EachStep step T s as) :
    EachStep step C s as := by
  induction as generalizing s with
  | nil => exact trivial
  | cons a as ih => exact ⟨imp s a start h.1, ih (keeps s a start h.1) h.2⟩

theorem EachStep.of_forall {C : α → Prop} {as : List α} (h : ∀ a ∈ as, C a) (s : σ) :
    EachStep step (fun _ a => C a) s as := by
  induction as generalizing s with
  | nil => exact trivial
  | cons a as ih =>
    rw [List.forall_mem_cons] at h
    exact ⟨h.1, ih h.2 _⟩

theorem eachStep_forall_iff {C : α → Prop} {s : σ} {as : List α} :
    EachStep step (fun _ a => C a) s as ↔ ∀ a ∈ as, C a := by
  refine ⟨fun h => ?_, fun h => .of_forall h s⟩
  induction as generalizing s with
  | nil => exact fun _ ha => absurd ha List.not_mem_nil
  | cons a as ih => exact List.forall_mem_cons.mpr ⟨h.1, ih h.2⟩

theorem eachStep_append {T : σ → α → Prop} (s : σ) (as bs : List α) :
    EachStep step T s (as ++ bs) ↔ EachStep step T s as ∧ EachStep step T (run step s as) bs := by
  induction as generalizing s with
  | nil => simp only [List.nil_append, EachStep, true_and, run_nil]
  | cons a as ih => simp only [List.cons_append, EachStep, ih, run_cons, and_assoc]

theorem eachStep_and {T C : σ → α → Prop} (s : σ) (as : List α) :
    EachStep step (fun t a => T t a ∧ C t a) s as ↔ EachStep step T s as ∧ EachStep step C s as := by
  induction as generalizing s with
  | nil => simp only [EachStep, and_self]
  | cons a as ih =>
    simp only [EachStep, ih]
    tauto

theorem Always.run {P : σ → Prop} {s : σ} {as : List α} (h : Always step P s as) : P (Histories.run step s as) := by
  induction as generalizing s with
  | nil => exact h
  | cons a as ih => exact ih h.2

theorem Always.of_invariant {I P : σ → Prop} (keeps : ∀ s a, I s → I (step s a)) (holds : ∀ s, I s → P s) {s : σ}
    (start : I s) (as : List α) : Always step P s as := by
  induction as generalizing s with
  | nil => exact holds s start
  | cons a as ih => exact ⟨holds s start, ih (keeps s a start)⟩

theorem always_iff_eachStep {P : σ → Prop} {s : σ} (start : P s) (as : List α) :
    Always step P s as ↔ EachStep step (fun t a => P (step t a)) s as := by
  induction as generalizing s with
  | nil => simp only [Always, EachStep, start]
  | cons a as ih =>
    simp only [Always, EachStep, start, true_and]
    constructor
    · intro h
      have hnext : P (step s a) := by cases as <;> simp only [Always] at h <;> tauto
      exact ⟨hnext, (ih hnext).mp h⟩
    · rintro ⟨hnext, h⟩
      exact (ih hnext).mpr h

theorem eachStep_iff {I : σ → Prop} {T C : σ → α → Prop}
    (keeps : ∀ s a, I s → T s a → I (step s a)) (agree : ∀ s a, I s → (T s a ↔ C s a))
    {s : σ} (start : I s) (as : List α) : EachStep step T s as ↔ EachStep step C s as := by
  induction as generalizing s with
  | nil => exact Iff.rfl
  | cons a as ih =>
    constructor
    · rintro ⟨ht, hrest⟩
      exact ⟨(agree s a start).mp ht, (ih (keeps s a start ht)).mp hrest⟩
    · rintro ⟨hc, hrest⟩
      have ht := (agree s a start).mpr hc
      exact ⟨ht, (ih (keeps s a start ht)).mpr hrest⟩

theorem foldlM_eq_run {step? : σ → α → Option σ} {step : σ → α → σ} {P : α → Prop} [DecidablePred P]
    (h : ∀ s a, step? s a = if P a then some (step s a) else none) (s : σ) (as : List α) :
    as.foldlM step? s = if ∀ a ∈ as, P a then some (run step s as) else none := by
  induction as generalizing s with
  | nil => simp
  | cons a as ih =>
    rw [List.foldlM_cons, h]
    by_cases ha : P a
    · simp [ha, ih]
    · simp [ha]

end CrashLab.Histories

namespace CrashLab.Accumulation

open Histories

variable {σ α M : Type*} [AddCommMonoid M] {step : σ → α → σ} {I : σ → Prop} {view : σ → M}
  {contribution : α → M}

theorem view_run (keeps : ∀ s a, I s → I (step s a))
    (adds : ∀ s a, I s → view (step s a) = view s + contribution a) {s : σ} (start : I s)
    (as : List α) : view (run step s as) = view s + (as.map contribution).sum := by
  induction as generalizing s with
  | nil => rw [run_nil, List.map_nil, List.sum_nil, add_zero]
  | cons a as ih =>
    rw [run_cons, ih (keeps s a start), adds s a start, List.map_cons, List.sum_cons, add_assoc]

theorem view_run_perm (keeps : ∀ s a, I s → I (step s a))
    (adds : ∀ s a, I s → view (step s a) = view s + contribution a) {s : σ} (start : I s)
    {as bs : List α} (h : as.Perm bs) : view (run step s as) = view (run step s bs) := by
  rw [view_run keeps adds start, view_run keeps adds start, (h.map contribution).sum_eq]

end CrashLab.Accumulation

namespace CrashLab.Interleavings

open Histories

variable {W L G A : Type}

structure Config (W L G : Type) where
  locals : W → L
  shared : G

def step [DecidableEq W] (next : A → L → G → Option (L × G)) (c : Config W L G) (act : W × A) :
    Config W L G :=
  match next act.2 (c.locals act.1) c.shared with
  | some (l, g) => ⟨Function.update c.locals act.1 l, g⟩
  | none => c

variable [DecidableEq W] {next : A → L → G → Option (L × G)} {I : G → Prop} {J : L → Prop}

def Holds (I : G → Prop) (J : L → Prop) (c : Config W L G) : Prop := I c.shared ∧ ∀ w, J (c.locals w)

theorem Holds.step (keeps : ∀ a l g l' g', next a l g = some (l', g') → I g → J l → I g' ∧ J l')
    {c : Config W L G} (h : Holds I J c) (act : W × A) : Holds I J (step next c act) := by
  unfold Interleavings.step
  split
  · rename_i l g heq
    obtain ⟨hI, hJ⟩ := keeps _ _ _ _ _ heq h.1 (h.2 act.1)
    refine ⟨hI, fun w => ?_⟩
    by_cases hw : w = act.1
    · subst hw
      simpa only [Function.update_self] using hJ
    · simpa only [Function.update_of_ne hw] using h.2 w
  · exact h

theorem Holds.run (keeps : ∀ a l g l' g', next a l g = some (l', g') → I g → J l → I g' ∧ J l')
    {c : Config W L G} (h : Holds I J c) (schedule : List (W × A)) :
    Holds I J (run (Interleavings.step next) c schedule) :=
  run_invariant (I := Holds I J) (fun _ act hc => hc.step keeps act) h schedule

end CrashLab.Interleavings
