import CrashLab.Sequence

namespace CrashLab.Sequence

open MachineInts SignatureHash

def SequenceSeed.truncate (seed : SequenceSeed) (m : ℕ) : SequenceSeed :=
  { seed with steps := seed.steps.take m }

section Truncation

variable {ε : Type} (executor : StepExecutor ε) (e : ε)

def chainSignature (seed : SequenceSeed) : CrashSignature :=
  sequenceCrashSignature seed.steps (driveSequence executor e seed).observations

theorem observe_take (ledgerState : List UInt8) (steps : List SequenceStep) (m : ℕ) :
    observe executor e ledgerState (steps.take m) = (observe executor e ledgerState steps).take m := by
  induction steps generalizing e ledgerState m with
  | nil => simp [observe]
  | cons step steps ih =>
    cases m with
    | zero => simp [observe]
    | succ m =>
      rw [List.take_succ_cons]
      simp only [observe, List.take_succ_cons, ih]

theorem observe_length (ledgerState : List UInt8) (steps : List SequenceStep) :
    (observe executor e ledgerState steps).length = steps.length := by
  induction steps generalizing e ledgerState with
  | nil => rfl
  | cons step steps ih => simp only [observe, List.length_cons, ih]

theorem evaluate_observe (steps : List SequenceStep) :
    evaluateSequence steps (observe executor e [] steps) =
      firstDivergence 0 steps (observe executor e [] steps) := by
  have hlen : ¬ (observe executor e [] steps).length ≠ steps.length :=
    not_not_intro (observe_length executor e [] steps)
  rw [evaluateSequence, if_neg hlen]

theorem firstDivergence_take {index k m : ℕ} {steps : List SequenceStep}
    {observed : List StepOutcome} {expected : StepExpectation} {outcome : StepOutcome}
    (h : firstDivergence index steps observed = .diverged k expected outcome) (hm : k < index + m) :
    index ≤ k ∧ firstDivergence index (steps.take m) (observed.take m) =
      .diverged k expected outcome := by
  induction steps generalizing index observed m with
  | nil => simp [firstDivergence] at h
  | cons step steps ih =>
    cases observed with
    | nil => simp [firstDivergence] at h
    | cons out observed =>
      rw [firstDivergence] at h
      split_ifs at h with hmet
      · obtain ⟨rfl, -, -⟩ := SequenceVerdict.diverged.inj h
        obtain ⟨m, rfl⟩ : ∃ n, m = n + 1 := ⟨m - 1, by omega⟩
        rw [List.take_succ_cons, List.take_succ_cons, firstDivergence, if_pos hmet]
        exact ⟨le_refl _, h⟩
      · have hle := (ih (m := k + 1) h (by omega)).1
        obtain ⟨m, rfl⟩ : ∃ n, m = n + 1 := ⟨m - 1, by omega⟩
        obtain ⟨-, hrest⟩ := ih (m := m) h (by omega)
        rw [List.take_succ_cons, List.take_succ_cons, firstDivergence, if_neg hmet]
        exact ⟨by omega, hrest⟩

theorem chainSignature_eq (seed : SequenceSeed) : chainSignature executor e seed =
    signatureFrom (signatureParts seed.steps
      (firstDivergence 0 seed.steps (observe executor e [] seed.steps))) := by
  rw [← evaluate_observe]
  rfl

theorem verdict_eq (seed : SequenceSeed) : (driveSequence executor e seed).verdict =
    firstDivergence 0 seed.steps (observe executor e [] seed.steps) :=
  evaluate_observe executor e seed.steps

theorem signatureParts_diverged (steps : List SequenceStep) (k : ℕ) (expected : StepExpectation)
    (outcome : StepOutcome) : signatureParts steps (.diverged k expected outcome) =
      ("sequence-diverge@" ++ toString k ++ ":" ++ outcome.label,
        ((steps[k]?).map (·.invocation)).getD []) := rfl

theorem firstDivergence_ne_incomplete (index : ℕ) (steps : List SequenceStep)
    (observed : List StepOutcome) (a b : ℕ) :
    firstDivergence index steps observed ≠ .incomplete a b := by
  fun_induction firstDivergence index steps observed with
  | case1 => simp
  | case2 _ _ _ _ _ _ ih => exact ih
  | case3 => simp

variable {executor e}

theorem verdict_of_divergence {seed : SequenceSeed} {k : ℕ}
    (h : (driveSequence executor e seed).verdict.divergenceStep = some k) :
    ∃ expected outcome, firstDivergence 0 seed.steps (observe executor e [] seed.steps) =
      .diverged k expected outcome := by
  rw [verdict_eq] at h
  cases hv : firstDivergence 0 seed.steps (observe executor e [] seed.steps) with
  | diverged stepIndex expected outcome =>
    rw [hv] at h
    obtain rfl := Option.some_inj.mp h
    exact ⟨expected, outcome, rfl⟩
  | matched => rw [hv] at h; cases h
  | incomplete _ _ => rw [hv] at h; cases h

theorem truncate_run {seed : SequenceSeed} {k : ℕ}
    (h : (driveSequence executor e seed).verdict.divergenceStep = some k) {m : ℕ} (hm : k < m) :
    (driveSequence executor e (seed.truncate m)).observations =
        (driveSequence executor e seed).observations.take m ∧
      (driveSequence executor e (seed.truncate m)).verdict =
        (driveSequence executor e seed).verdict ∧
      chainSignature executor e (seed.truncate m) = chainSignature executor e seed := by
  obtain ⟨expected, outcome, hdiv⟩ := verdict_of_divergence h
  have hobs : observe executor e [] (seed.steps.take m) =
      (observe executor e [] seed.steps).take m := observe_take executor e [] seed.steps m
  have hcut : firstDivergence 0 (seed.steps.take m) (observe executor e [] (seed.steps.take m)) =
      .diverged k expected outcome := by
    rw [hobs]
    exact (firstDivergence_take hdiv (by omega)).2
  refine ⟨hobs, ?_, ?_⟩
  · rw [verdict_eq, verdict_eq, hdiv]
    exact hcut
  · have hget : (seed.steps.take m)[k]? = seed.steps[k]? := List.getElem?_take_of_lt hm
    have hparts : signatureParts (seed.steps.take m) (.diverged k expected outcome) =
        signatureParts seed.steps (.diverged k expected outcome) := by
      rw [signatureParts_diverged, signatureParts_diverged, hget]
    rw [chainSignature_eq, chainSignature_eq, hdiv, ← hparts, ← hcut]
    rfl

theorem divergeCategory_ne (tail : String) : "sequence-diverge@" ++ tail ≠ "sequence-matched" := by
  intro h
  have hchars := congrArg (fun s : String => s.toList.take 10) h
  simp at hchars

theorem diverges_of_signature {seed other : SequenceSeed} {k : ℕ}
    (h : (driveSequence executor e seed).verdict.divergenceStep = some k)
    (hsig : chainSignature executor e other = chainSignature executor e seed) :
    ∃ j, (driveSequence executor e other).verdict.divergenceStep = some j := by
  obtain ⟨expected, outcome, hdiv⟩ := verdict_of_divergence h
  rw [chainSignature_eq, chainSignature_eq, hdiv, signatureParts_diverged] at hsig
  rw [verdict_eq]
  cases hv : firstDivergence 0 other.steps (observe executor e [] other.steps) with
  | diverged stepIndex expected' outcome' => exact ⟨stepIndex, rfl⟩
  | matched =>
    rw [hv] at hsig
    have hcategory : "sequence-matched" = "sequence-diverge@" ++ toString k ++ ":" ++ outcome.label :=
      congrArg CrashSignature.category hsig
    rw [String.append_assoc, String.append_assoc] at hcategory
    exact absurd hcategory.symm (divergeCategory_ne _)
  | incomplete a b => exact absurd hv (firstDivergence_ne_incomplete _ _ _ a b)

end Truncation

section Shrinking

variable {seed : SequenceSeed} {signatureOf : SequenceSeed → CrashSignature} {statePrefix k : ℕ}

theorem dropStep_truncation (hfits : seed.steps.length ≤ usizeMax)
    (hstable : ∀ m > k, signatureOf (seed.truncate m) = signatureOf seed) {m : ℕ}
    (hprotected : statePrefix < (seed.truncate m).steps.length)
    (hk : k + 1 < (seed.truncate m).steps.length) :
    dropStep statePrefix signatureOf (signatureOf seed) (seed.truncate m)
      (seed.truncate m).steps.length =
        some (seed.truncate ((seed.truncate m).steps.length - 1)) := by
  have hlen : (seed.truncate m).steps.length = min m seed.steps.length := List.length_take
  obtain ⟨n, hn⟩ : ∃ n, (seed.truncate m).steps.length = n + 1 :=
    ⟨(seed.truncate m).steps.length - 1, by omega⟩
  have hlast : (seed.truncate m).steps.eraseIdx n = seed.steps.take n := by
    rw [List.eraseIdx_eq_take_drop_succ, List.drop_of_length_le hn.le, List.append_nil,
      SequenceSeed.truncate, List.take_take, min_eq_left (by omega)]
  have hdelete : applyStructural (seed.truncate m) (.delete n) ⟨1, usizeMax⟩ statePrefix =
      .ok (seed.truncate n) := by
    have hin : ¬ n ≥ (seed.truncate m).steps.length := by omega
    have hfree : ¬ n < min statePrefix (seed.truncate m).steps.length := by omega
    have hallowed : SequenceConfig.allows ⟨1, usizeMax⟩ (seed.steps.take n).length = true := by
      rw [List.length_take, SequenceConfig.allows, Bool.and_eq_true, decide_eq_true_eq,
        decide_eq_true_eq]
      simp only
      omega
    simp only [applyStructural, restructure, if_neg hin, if_neg hfree, hlast, hallowed,
      Bool.not_true, Bool.false_eq_true, if_false]
    rfl
  rw [hn, dropStep, if_pos (by omega), hdelete]
  simp only [hstable n (by omega), if_true, Nat.add_sub_cancel]

theorem shrinkLoop_short (hfits : seed.steps.length ≤ usizeMax)
    (hstable : ∀ m > k, signatureOf (seed.truncate m) = signatureOf seed) {floor bound : ℕ}
    (hfloor : floor ≤ bound) (hprotected : statePrefix ≤ bound) (hk : k + 1 ≤ bound)
    (current : SequenceSeed) (hsig : signatureOf current = signatureOf seed)
    (hcurrent : current.steps.length ≤ bound ∨ ∃ m > k, current = seed.truncate m) :
    signatureOf (shrinkLoop statePrefix signatureOf (signatureOf seed) floor current) =
        signatureOf seed ∧
      (shrinkLoop statePrefix signatureOf (signatureOf seed) floor current).steps.length ≤ bound := by
  fun_induction shrinkLoop statePrefix signatureOf (signatureOf seed) floor current with
  | case1 current hgt candidate hdrop ih =>
    obtain ⟨hshorter, hcandidate⟩ := dropStep_some _ _ _ hdrop
    apply ih hcandidate
    rcases Nat.lt_or_ge bound current.steps.length with hlong | hshort
    · obtain ⟨m, hm, rfl⟩ := hcurrent.resolve_left (not_le.mpr hlong)
      rw [dropStep_truncation hfits hstable (by omega) (by omega)] at hdrop
      exact Or.inr ⟨_, by omega, (Option.some_inj.mp hdrop).symm⟩
    · exact Or.inl (by omega)
  | case2 current hgt hdrop =>
    refine ⟨hsig, ?_⟩
    by_contra hlong
    obtain ⟨m, hm, rfl⟩ := hcurrent.resolve_left hlong
    rw [dropStep_truncation hfits hstable (by omega) (by omega)] at hdrop
    cases hdrop
  | case3 current hle => exact ⟨hsig, by omega⟩

end Shrinking

theorem truncation_stable_attribution {ε : Type} (executor : StepExecutor ε) (e : ε)
    (seed : SequenceSeed) (k : ℕ) (hfits : seed.steps.length ≤ usizeMax)
    (hdiverged : (driveSequence executor e seed).verdict.divergenceStep = some k) :
    (∀ m > k,
      (driveSequence executor e (seed.truncate m)).observations =
        (driveSequence executor e seed).observations.take m ∧
      (driveSequence executor e (seed.truncate m)).verdict = (driveSequence executor e seed).verdict ∧
      chainSignature executor e (seed.truncate m) = chainSignature executor e seed) ∧
    ∀ minSteps statePrefix,
      let shrunk := shrinkSequence seed minSteps statePrefix (chainSignature executor e)
      (∃ j, (driveSequence executor e shrunk).verdict.divergenceStep = some j) ∧
      shrunk.steps.length ≤ max (max minSteps 1) (max statePrefix (k + 1)) := by
  refine ⟨fun m hm => truncate_run hdiverged hm, fun minSteps statePrefix => ?_⟩
  have hstable : ∀ m > k, chainSignature executor e (seed.truncate m) =
      chainSignature executor e seed := fun m hm => (truncate_run hdiverged hm).2.2
  have hself : seed.truncate (max (k + 1) seed.steps.length) = seed := by
    rw [SequenceSeed.truncate, List.take_of_length_le (le_max_right _ _)]
  have hbehind : ∃ m > k, seed = seed.truncate m :=
    ⟨max (k + 1) seed.steps.length, by omega, hself.symm⟩
  have hloop : ∀ bound, max minSteps 1 ≤ bound → statePrefix ≤ bound → k + 1 ≤ bound → _ :=
    fun bound hfloor hprotected hk =>
      shrinkLoop_short hfits hstable hfloor hprotected hk seed rfl (Or.inr hbehind)
  obtain ⟨hsig, hlen⟩ := hloop (max (max minSteps 1) (max statePrefix (k + 1))) (by omega)
    (by omega) (by omega)
  exact ⟨diverges_of_signature hdiverged hsig, hlen⟩

def growingLedger : StepExecutor Unit where
  execute _ _ ledgerState :=
    (if ledgerState.length < 2 then .success else .failure "state", (), 0 :: ledgerState)

theorem truncation_stable_attribution_growingLedger :
    let step : SequenceStep := ⟨[7], "enforce", .success⟩
    let seed := SequenceSeed.new 1 [step, step, step, step, step]
    (driveSequence growingLedger () seed).verdict = .diverged 2 .success (.failure "state") ∧
    (shrinkSequence seed 1 0 (chainSignature growingLedger ())).steps.length ≤ 3 := by
  intro step seed
  have hverdict : (driveSequence growingLedger () seed).verdict =
      .diverged 2 .success (.failure "state") := by decide
  exact ⟨hverdict, ((truncation_stable_attribution growingLedger () seed 2 (by decide)
    (by rw [hverdict]; rfl)).2 1 0).2⟩

end CrashLab.Sequence
