import CrashLab.Deletions
import CrashLab.Sequence

namespace CrashLab.Sequence

open MachineInts SignatureHash Deletions

def SequenceSeed.without (seed : SequenceSeed) (index : ℕ) : SequenceSeed :=
  { seed with steps := seed.steps.eraseIdx index }

@[simp] theorem SequenceSeed.without_id (seed : SequenceSeed) (index : ℕ) :
    (seed.without index).id = seed.id := rfl

@[simp] theorem SequenceSeed.without_schema (seed : SequenceSeed) (index : ℕ) :
    (seed.without index).schema = seed.schema := rfl

@[simp] theorem SequenceSeed.without_steps (seed : SequenceSeed) (index : ℕ) :
    (seed.without index).steps = seed.steps.eraseIdx index := rfl

theorem applyStructural_delete {seed : SequenceSeed} {index statePrefix : ℕ}
    (hlong : 1 < seed.steps.length) (hfits : seed.steps.length ≤ usizeMax)
    (hindex : index < seed.steps.length) (hfree : min statePrefix seed.steps.length ≤ index) :
    applyStructural seed (.delete index) ⟨1, usizeMax⟩ statePrefix = .ok (seed.without index) := by
  have hlength := List.length_eraseIdx_of_lt hindex
  have hallows : (SequenceConfig.mk 1 usizeMax).allows (seed.steps.eraseIdx index).length = true := by
    simp only [SequenceConfig.allows, Bool.and_eq_true, decide_eq_true_eq]
    omega
  simp only [applyStructural, restructure, if_neg (not_le.mpr hindex), if_neg (not_lt.mpr hfree),
    hallows, Bool.not_true, Bool.false_eq_true, if_false]
  rfl

section Shrink

variable {statePrefix : ℕ} {signatureOf : SequenceSeed → CrashSignature} {target : CrashSignature}

theorem dropStep_spec {current : SequenceSeed} (hlong : 1 < current.steps.length)
    (hfits : current.steps.length ≤ usizeMax) {bound : ℕ} (hbound : bound ≤ current.steps.length) :
    match dropStep statePrefix signatureOf target current bound with
    | some candidate => ∃ index, statePrefix ≤ index ∧ index < bound ∧
        candidate = current.without index ∧ signatureOf candidate = target
    | none => ∀ index, statePrefix ≤ index → index < bound →
        signatureOf (current.without index) ≠ target := by
  induction bound with
  | zero => simp [dropStep]
  | succ index ih =>
    rw [dropStep]
    by_cases hfree : index + 1 > min statePrefix current.steps.length
    · rw [if_pos hfree, applyStructural_delete hlong hfits hbound (by omega)]
      by_cases hsame : signatureOf (current.without index) = target
      · simp only [if_pos hsame]
        exact ⟨index, by omega, Nat.lt_succ_self index, rfl, hsame⟩
      · simp only [if_neg hsame]
        have hbelow := ih (by omega)
        cases hdrop : dropStep statePrefix signatureOf target current index with
        | some candidate =>
          rw [hdrop] at hbelow
          obtain ⟨found, hfront, hlt, hrest⟩ := hbelow
          exact ⟨found, hfront, Nat.lt_succ_of_lt hlt, hrest⟩
        | none =>
          rw [hdrop] at hbelow
          intro other hfront hlt
          rcases Nat.lt_succ_iff_lt_or_eq.mp hlt with hlt | rfl
          · exact hbelow other hfront hlt
          · exact hsame
    · rw [if_neg hfree]
      intro other hfront hlt
      omega

/-- What the shrinking of `seed` has kept when it has come to `current`. -/
structure Shrunk (statePrefix floor : ℕ) (signatureOf : SequenceSeed → CrashSignature)
    (seed current : SequenceSeed) : Prop where
  sameId : current.id = seed.id
  sameSchema : current.schema = seed.schema
  sameSignature : signatureOf current = signatureOf seed
  steps : Shortened statePrefix seed.steps current.steps
  long : min seed.steps.length floor ≤ current.steps.length

theorem Shrunk.refl (statePrefix floor : ℕ) (signatureOf : SequenceSeed → CrashSignature)
    (seed : SequenceSeed) : Shrunk statePrefix floor signatureOf seed seed :=
  ⟨rfl, rfl, rfl, Shortened.refl _ _, min_le_left _ _⟩

theorem Shrunk.without {floor index : ℕ} {seed current : SequenceSeed}
    (h : Shrunk statePrefix floor signatureOf seed current) (hlong : floor < current.steps.length)
    (hfront : statePrefix ≤ index) (hindex : index < current.steps.length)
    (hsame : signatureOf (current.without index) = signatureOf seed) :
    Shrunk statePrefix floor signatureOf seed (current.without index) where
  sameId := h.sameId
  sameSchema := h.sameSchema
  sameSignature := hsame
  steps := h.steps.trans (Shortened.eraseIdx current.steps hfront)
  long := by
    have := List.length_eraseIdx_of_lt hindex
    simp only [SequenceSeed.without_steps]
    omega

def StepwiseMinimal (statePrefix floor : ℕ) (signatureOf : SequenceSeed → CrashSignature)
    (current : SequenceSeed) : Prop :=
  current.steps.length ≤ floor ∨
    Minimal (fun steps => signatureOf { current with steps } = signatureOf current) statePrefix
      current.steps

theorem shrinkLoop_dropped {floor : ℕ} {current candidate : SequenceSeed}
    (hlong : current.steps.length > floor)
    (hdrop : dropStep statePrefix signatureOf target current current.steps.length = some candidate) :
    shrinkLoop statePrefix signatureOf target floor current =
      shrinkLoop statePrefix signatureOf target floor candidate := by
  rw [shrinkLoop, if_pos hlong]
  split <;> simp_all

theorem shrinkLoop_stuck {floor : ℕ} {current : SequenceSeed}
    (hdrop : dropStep statePrefix signatureOf target current current.steps.length = none) :
    shrinkLoop statePrefix signatureOf target floor current = current := by
  rw [shrinkLoop]
  split_ifs
  · split <;> simp_all
  · rfl

theorem shrinkLoop_spec {floor : ℕ} (hfloor : 1 ≤ floor) {seed : SequenceSeed}
    (hfits : seed.steps.length ≤ usizeMax) (current : SequenceSeed)
    (h : Shrunk statePrefix floor signatureOf seed current) :
    let result := shrinkLoop statePrefix signatureOf (signatureOf seed) floor current
    Shrunk statePrefix floor signatureOf seed result ∧
      StepwiseMinimal statePrefix floor signatureOf result := by
  induction current using shrinkLoop.induct statePrefix signatureOf (signatureOf seed) floor with
  | case1 current hlong candidate hdrop ih =>
    have hshort := h.steps.sublist.length_le
    have hsweep := @dropStep_spec statePrefix signatureOf (signatureOf seed) current (by omega)
      (by omega) current.steps.length (le_refl _)
    rw [hdrop] at hsweep
    obtain ⟨index, hfront, hindex, rfl, hsame⟩ := hsweep
    have hresult := ih (h.without hlong hfront hindex hsame)
    rwa [shrinkLoop_dropped hlong hdrop]
  | case2 current hlong hdrop =>
    have hshort := h.steps.sublist.length_le
    have hsweep := @dropStep_spec statePrefix signatureOf (signatureOf seed) current (by omega)
      (by omega) current.steps.length (le_refl _)
    rw [hdrop] at hsweep
    rw [shrinkLoop_stuck hdrop]
    refine ⟨h, Or.inr fun index hfront hindex => ?_⟩
    rw [h.sameSignature]
    exact hsweep index hfront hindex
  | case3 current hlong =>
    rw [shrinkLoop, if_neg hlong]
    exact ⟨h, Or.inl (not_lt.mp hlong)⟩

end Shrink

theorem shrinkSequence_minimal (seed : SequenceSeed) (minSteps statePrefix : ℕ)
    (signatureOf : SequenceSeed → CrashSignature) (hfits : seed.steps.length ≤ usizeMax) :
    let result := shrinkSequence seed minSteps statePrefix signatureOf
    signatureOf result = signatureOf seed ∧ result.id = seed.id ∧ result.schema = seed.schema ∧
      result.steps.Sublist seed.steps ∧
      result.steps.take statePrefix = seed.steps.take statePrefix ∧
      min seed.steps.length (max minSteps 1) ≤ result.steps.length ∧
      (result.steps.length = min seed.steps.length (max minSteps 1) ∨
        ∀ index, statePrefix ≤ index → index < result.steps.length →
          signatureOf { result with steps := result.steps.eraseIdx index } ≠ signatureOf seed) := by
  obtain ⟨hshrunk, hminimal⟩ := shrinkLoop_spec (le_max_right minSteps 1) hfits seed
    (Shrunk.refl statePrefix (max minSteps 1) signatureOf seed)
  have hshort := hshrunk.steps.sublist.length_le
  have hlong := hshrunk.long
  refine ⟨hshrunk.sameSignature, hshrunk.sameId, hshrunk.sameSchema, hshrunk.steps.sublist,
    hshrunk.steps.front, hlong, ?_⟩
  rcases hminimal with hfloor | hminimal
  · refine Or.inl ?_
    rw [shrinkSequence]
    omega
  · refine Or.inr fun index hfront hindex => ?_
    rw [← hshrunk.sameSignature]
    exact hminimal index hfront hindex

theorem trap_at_first_step_shrunk :
    let first : SequenceStep := ⟨[1], "mock", .success⟩
    let seed := SequenceSeed.new 7 [first, ⟨[2], "mock", .any⟩, first]
    let signatureOf := fun candidate : SequenceSeed =>
      sequenceCrashSignature candidate.steps (candidate.steps.map fun _ => .failure "trap")
    let result := shrinkSequence seed 1 1 signatureOf
    signatureOf result = signatureOf seed ∧ result.id = 7 ∧ result.steps.take 1 = [first] := by
  intro first seed signatureOf result
  obtain ⟨hsame, hid, -, -, hfront, -⟩ := shrinkSequence_minimal seed 1 1 signatureOf (by decide)
  exact ⟨hsame, hid, hfront⟩

end CrashLab.Sequence
