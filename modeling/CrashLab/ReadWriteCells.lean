import Mathlib.Tactic

namespace CrashLab.ReadWriteCells

inductive Stage (ρ : Type*) where
  | fresh
  | loaded (seen : ρ)
  | settled (seen : ρ)

variable {ρ : Type*} (change : Bool → ρ → Option ρ)

def effect (p : Bool) (value : ρ) : ρ := (change p value).getD value

def writes (stage : Bool → Stage ρ) (p : Bool) : ℕ :=
  match stage p with
  | .settled seen => if (change p seen).isSome then 1 else 0
  | _ => 0

structure Untouched (initial value : ρ) (stage : Bool → Stage ρ) : Prop where
  holds : value = initial
  loaded : ∀ p seen, stage p = .loaded seen → seen = initial
  settled : ∀ p seen, stage p = .settled seen → seen = initial ∧ change p seen = none

structure WrittenOnce (x : Bool) (initial value : ρ) (stage : Bool → Stage ρ) : Prop where
  writer : stage x = .settled initial
  holds : change x initial = some value
  loaded : ∀ seen, stage (!x) = .loaded seen → seen = initial ∨ seen = value
  settled : ∀ seen, stage (!x) = .settled seen → (seen = initial ∨ seen = value) ∧ change (!x) seen = none

structure WrittenTwice (x : Bool) (initial value : ρ) (stage : Bool → Stage ρ) : Prop where
  writer : stage x = .settled initial
  second : ∃ between, change x initial = some between ∧ stage (!x) = .settled between ∧
    change (!x) between = some value

structure Overwritten (x : Bool) (initial value : ρ) (stage : Bool → Stage ρ) : Prop where
  writer : stage x = .settled initial
  written : (change x initial).isSome
  second : stage (!x) = .settled initial
  holds : change (!x) initial = some value

def Serial (initial value : ρ) (stage : Bool → Stage ρ) : Prop :=
  Untouched change initial value stage ∨ ∃ x, WrittenOnce change x initial value stage ∨
    WrittenTwice change x initial value stage

variable {change} {initial value seen : ρ} {stage : Bool → Stage ρ} {p x : Bool}

theorem eq_or_eq_not (p x : Bool) : p = x ∨ p = !x := by cases p <;> cases x <;> simp

theorem serial_fresh : Serial change initial initial fun _ => .fresh :=
  .inl ⟨rfl, nofun, nofun⟩

theorem Serial.load (h : Serial change initial value stage) (hp : stage p = .fresh) :
    Serial change initial value (Function.update stage p (.loaded value)) := by
  obtain h | ⟨x, h | h⟩ := h
  · refine .inl ⟨h.holds, fun q seen hq => ?_, fun q seen hq => ?_⟩
    · by_cases hqp : q = p
      · rw [hqp, Function.update_self] at hq
        cases hq
        exact h.holds
      · rw [Function.update_of_ne hqp] at hq
        exact h.loaded q seen hq
    · by_cases hqp : q = p
      · rw [hqp, Function.update_self] at hq
        cases hq
      · rw [Function.update_of_ne hqp] at hq
        exact h.settled q seen hq
  · obtain rfl | rfl := eq_or_eq_not p x
    · rw [h.writer] at hp
      cases hp
    · refine .inr ⟨x, .inl ⟨?_, h.holds, fun seen hq => ?_, fun seen hq => ?_⟩⟩
      · rw [Function.update_of_ne (by simp)]
        exact h.writer
      · rw [Function.update_self] at hq
        cases hq
        exact .inr rfl
      · rw [Function.update_self] at hq
        cases hq
  · obtain ⟨between, -, hsecond, -⟩ := h.second
    obtain rfl | rfl := eq_or_eq_not p x
    · rw [h.writer] at hp
      cases hp
    · rw [hsecond] at hp
      cases hp

theorem Serial.settle (h : Serial change initial value stage) (hp : stage p = .loaded seen)
    (hnone : change p seen = none) : Serial change initial value (Function.update stage p (.settled seen)) := by
  obtain h | ⟨x, h | h⟩ := h
  · refine .inl ⟨h.holds, fun q other hq => ?_, fun q other hq => ?_⟩
    · by_cases hqp : q = p
      · rw [hqp, Function.update_self] at hq
        cases hq
      · rw [Function.update_of_ne hqp] at hq
        exact h.loaded q other hq
    · by_cases hqp : q = p
      · rw [hqp, Function.update_self] at hq
        cases hq
        exact ⟨h.loaded p seen hp, hqp ▸ hnone⟩
      · rw [Function.update_of_ne hqp] at hq
        exact h.settled q other hq
  · obtain rfl | rfl := eq_or_eq_not p x
    · rw [h.writer] at hp
      cases hp
    · refine .inr ⟨x, .inl ⟨?_, h.holds, fun other hq => ?_, fun other hq => ?_⟩⟩
      · rw [Function.update_of_ne (by simp)]
        exact h.writer
      · rw [Function.update_self] at hq
        cases hq
      · rw [Function.update_self] at hq
        cases hq
        exact ⟨h.loaded seen hp, hnone⟩
  · obtain ⟨between, -, hsecond, -⟩ := h.second
    obtain rfl | rfl := eq_or_eq_not p x
    · rw [h.writer] at hp
      cases hp
    · rw [hsecond] at hp
      cases hp

theorem Serial.store (h : Serial change initial value stage) (hp : stage p = .loaded seen) {next : ρ}
    (hsome : change p seen = some next) :
    (value = seen → Serial change initial next (Function.update stage p (.settled seen))) ∧
      (value ≠ seen → ∃ x, Overwritten change x initial next (Function.update stage p (.settled seen))) := by
  have hpn : p ≠ !p := by simp
  obtain h | ⟨x, h | h⟩ := h
  · have hseen := h.loaded p seen hp
    subst hseen
    refine ⟨fun _ => .inr ⟨p, .inl ⟨Function.update_self .., hsome, fun other hq => ?_, fun other hq => ?_⟩⟩,
      fun hne => absurd h.holds hne⟩
    · rw [Function.update_of_ne hpn.symm] at hq
      exact .inl (h.loaded _ _ hq)
    · rw [Function.update_of_ne hpn.symm] at hq
      obtain ⟨hother, hnone⟩ := h.settled _ _ hq
      exact ⟨.inl hother, hnone⟩
  · obtain rfl | rfl := eq_or_eq_not p x
    · rw [h.writer] at hp
      cases hp
    · have hxn : x ≠ !x := by simp
      constructor
      · rintro rfl
        refine .inr ⟨x, .inr ⟨?_, value, h.holds, Function.update_self .., hsome⟩⟩
        rw [Function.update_of_ne hxn]
        exact h.writer
      · intro hne
        have hseen : seen = initial := (h.loaded seen hp).resolve_right fun h => hne h.symm
        subst hseen
        refine ⟨x, ?_, ?_, Function.update_self .., hsome⟩
        · rw [Function.update_of_ne hxn]
          exact h.writer
        · rw [h.holds]
          rfl
  · obtain ⟨between, -, hsecond, -⟩ := h.second
    obtain rfl | rfl := eq_or_eq_not p x
    · rw [h.writer] at hp
      cases hp
    · rw [hsecond] at hp
      cases hp

inductive Quiet (change : ρ → Option ρ) (value : ρ) : Stage ρ → Stage ρ → Prop where
  | stay (stage : Stage ρ) : Quiet change value stage stage
  | load : Quiet change value .fresh (.loaded value)
  | settle (seen : ρ) : change seen = none → Quiet change value (.loaded seen) (.settled seen)
  | skip : change value = none → Quiet change value .fresh (.settled value)

theorem Serial.quiet {stage' : Stage ρ} (h : Serial change initial value stage)
    (hquiet : Quiet (change p) value (stage p) stage') :
    Serial change initial value (Function.update stage p stage') := by
  generalize hp : stage p = now at hquiet
  cases hquiet with
  | stay =>
    rw [← hp, Function.update_eq_self]
    exact h
  | load => exact h.load hp
  | settle seen hnone => exact h.settle hp hnone
  | skip hnone =>
    have hload := (h.load hp).settle (p := p) (Function.update_self ..) hnone
    rw [Function.update_idem] at hload
    exact hload

theorem Overwritten.settled (h : Overwritten change x initial value stage) (p : Bool) :
    stage p = .settled initial := by
  obtain rfl | rfl := eq_or_eq_not p x
  · exact h.writer
  · exact h.second

section Outcome

theorem Serial.effect_eq (h : Serial change initial value stage) (done : ∀ p, ∃ seen, stage p = .settled seen) :
    ∃ p, value = ReadWriteCells.effect change (!p) (ReadWriteCells.effect change p initial) := by
  obtain h | ⟨x, h | h⟩ := h
  · have hnone : ∀ p, change p initial = none := by
      intro p
      obtain ⟨seen, hseen⟩ := done p
      obtain ⟨rfl, hnone⟩ := h.settled p seen hseen
      exact hnone
    exact ⟨true, by simp [ReadWriteCells.effect, hnone, h.holds]⟩
  · obtain ⟨seen, hseen⟩ := done (!x)
    obtain ⟨rfl | rfl, hnone⟩ := h.settled seen hseen
    · exact ⟨!x, by simp [ReadWriteCells.effect, hnone, h.holds]⟩
    · exact ⟨x, by simp [ReadWriteCells.effect, hnone, h.holds]⟩
  · obtain ⟨between, hfirst, -, hsecond⟩ := h.second
    exact ⟨x, by simp [ReadWriteCells.effect, hfirst, hsecond]⟩

variable {height : ρ → ℕ} (grows : ∀ p value next, change p value = some next → height next = height value + 1)

include grows

theorem Serial.height_eq (h : Serial change initial value stage) (done : ∀ p, ∃ seen, stage p = .settled seen) :
    height value = height initial + writes change stage true + writes change stage false := by
  have hsum : ∀ x, writes change stage true + writes change stage false =
      writes change stage x + writes change stage (!x) := by
    intro x
    cases x
    · exact add_comm _ _
    · rfl
  rw [add_assoc]
  obtain h | ⟨x, h | h⟩ := h
  · have hzero : ∀ p, writes change stage p = 0 := by
      intro p
      obtain ⟨seen, hseen⟩ := done p
      simp [writes, hseen, (h.settled p seen hseen).2]
    rw [hzero, hzero, h.holds, add_zero, add_zero]
  · obtain ⟨seen, hseen⟩ := done (!x)
    have hself : writes change stage x = 1 := by simp [writes, h.writer, h.holds]
    have hother : writes change stage (!x) = 0 := by simp [writes, hseen, (h.settled seen hseen).2]
    rw [hsum x, hself, hother, grows x _ _ h.holds]
  · obtain ⟨between, hfirst, hseen, hsecond⟩ := h.second
    have hself : writes change stage x = 1 := by simp [writes, h.writer, hfirst]
    have hother : writes change stage (!x) = 1 := by simp [writes, hseen, hsecond]
    rw [hsum x, hself, hother, grows _ _ _ hsecond, grows _ _ _ hfirst]

theorem Overwritten.height_lt (h : Overwritten change x initial value stage) :
    height value < height initial + writes change stage true + writes change stage false := by
  have hwrites : ∀ p, writes change stage p = 1 := by
    intro p
    obtain rfl | rfl := eq_or_eq_not p x
    · simp [writes, h.writer, h.written]
    · simp [writes, h.second, h.holds]
  rw [hwrites, hwrites, grows _ _ _ h.holds]
  omega

end Outcome

end CrashLab.ReadWriteCells
