import CrashLab.Histories
import CrashLab.Loops
import CrashLab.Seeds
import CrashLab.SimulationRetry

namespace CrashLab.Reproducer

open Loops Retry

def drain (seed : CaseSeed) (start «end» : ℕ) : CaseSeed :=
  { seed with payload := seed.payload.take start ++ seed.payload.drop «end» }

def zeroByte (seed : CaseSeed) (i : ℕ) : CaseSeed := { seed with payload := seed.payload.set i 0 }

theorem drain_shorter {seed : CaseSeed} {start chunk : ℕ}
    (h : ¬ min (start + chunk) seed.payload.length ≤ start) :
    (drain seed start (min (start + chunk) seed.payload.length)).payload.length <
      seed.payload.length := by
  simp only [drain, List.length_append, List.length_take, List.length_drop]
  omega

section Shrink

variable {σ : Type} (expected : CrashSignature) (reproducer : CaseSeed → Call σ CrashSignature)

def removeChunks (chunk : ℕ) (best : CaseSeed) (improved : Bool) (start : ℕ) (s : σ) :
    Except SimulationError (CaseSeed × Bool) × σ :=
  if start < best.payload.length then
    let «end» := min (start + chunk) best.payload.length
    if «end» ≤ start then (.ok (best, improved), s)
    else
      let candidate := drain best start «end»
      match executeWithRetry .default (reproducer candidate) s with
      | (.error e, s) => (.error e, s)
      | (.ok sig, s) =>
        if sig = expected then removeChunks chunk candidate true start s
        else removeChunks chunk best improved (start + 1) s
  else (.ok (best, improved), s)
termination_by best.payload.length - start
decreasing_by
  · rename_i hend
    have hshorter := @drain_shorter best start chunk hend
    omega
  · omega

attribute [grind =] removeChunks

theorem removeChunks_size (chunk : ℕ) (best : CaseSeed) (improved : Bool) (start : ℕ) (s : σ)
    {next : CaseSeed} {flag : Bool}
    (h : (removeChunks expected reproducer chunk best improved start s).1 = .ok (next, flag)) :
    flag = improved ∧ next = best ∨ flag = true ∧ next.payload.length < best.payload.length := by
  revert h
  fun_induction removeChunks expected reproducer chunk best improved start s with
  | case1 best improved start s hin «end» hend =>
    intro h
    obtain ⟨rfl, rfl⟩ := Prod.mk.inj (Except.ok.inj h)
    exact Or.inl ⟨rfl, rfl⟩
  | case2 best improved start s hin «end» hend candidate e t hrun => exact fun h => nomatch h
  | case3 best improved start s hin «end» hend candidate t hrun ih =>
    intro h
    have hshorter : candidate.payload.length < best.payload.length := drain_shorter hend
    rcases ih h with ⟨hflag, rfl⟩ | ⟨hflag, hnext⟩
    · exact Or.inr ⟨hflag, hshorter⟩
    · exact Or.inr ⟨hflag, hnext.trans hshorter⟩
  | case4 best improved start s hin «end» hend candidate sig t hrun hsig ih => exact ih
  | case5 best improved start s hin =>
    intro h
    obtain ⟨rfl, rfl⟩ := Prod.mk.inj (Except.ok.inj h)
    exact Or.inl ⟨rfl, rfl⟩

theorem removeChunks_idle {chunk : ℕ} {best next : CaseSeed} {s t : σ}
    (h : removeChunks expected reproducer chunk best false 0 s = (.ok (next, false), t)) :
    next = best := by
  rcases removeChunks_size expected reproducer chunk best false 0 s (congrArg Prod.fst h) with
    ⟨-, hsame⟩ | ⟨hflag, -⟩
  · exact hsame
  · exact absurd hflag Bool.false_ne_true

theorem removeChunks_improved {chunk : ℕ} {best next : CaseSeed} {s t : σ}
    (h : removeChunks expected reproducer chunk best false 0 s = (.ok (next, true), t)) :
    next.payload.length < best.payload.length := by
  rcases removeChunks_size expected reproducer chunk best false 0 s (congrArg Prod.fst h) with
    ⟨hflag, -⟩ | ⟨-, hshorter⟩
  · exact absurd hflag.symm Bool.false_ne_true
  · exact hshorter

def removalPass (chunk : ℕ) (hchunk : 1 ≤ chunk) (best : CaseSeed) (s : σ) :
    Except SimulationError CaseSeed × σ :=
  match hsweep : removeChunks expected reproducer chunk best false 0 s with
  | (.error e, s') => (.error e, s')
  | (.ok (next, false), s') =>
    if hone : chunk = 1 then (.ok next, s') else removalPass (chunk / 2) (by omega) next s'
  | (.ok (next, true), s') =>
    if next.payload.length ≤ 1 then (.ok next, s')
    else if chunk > next.payload.length then
      removalPass (max (next.payload.length / 2) 1) (le_max_right _ _) next s'
    else removalPass chunk hchunk next s'
termination_by (best.payload.length, chunk)
decreasing_by
  · rw [removeChunks_idle expected reproducer hsweep]
    exact Prod.Lex.right _ (by omega)
  · exact Prod.Lex.left _ _ (removeChunks_improved expected reproducer hsweep)
  · exact Prod.Lex.left _ _ (removeChunks_improved expected reproducer hsweep)

theorem removeChunks_done {chunk : ℕ} {best : CaseSeed} {start : ℕ}
    (hout : best.payload.length ≤ start) (improved : Bool) (s : σ) :
    removeChunks expected reproducer chunk best improved start s = (.ok (best, improved), s) := by
  rw [removeChunks, if_neg (not_lt.mpr hout)]

theorem removalPass_idle {hchunk : 1 ≤ 1} {best next : CaseSeed} {s t : σ}
    (h : removeChunks expected reproducer 1 best false 0 s = (.ok (next, false), t)) :
    removalPass expected reproducer 1 hchunk best s = (.ok next, t) := by
  rw [removalPass]
  split <;> simp_all

theorem removalPass_short {chunk : ℕ} {hchunk : 1 ≤ chunk} {best next : CaseSeed} {s t : σ}
    (h : removeChunks expected reproducer chunk best false 0 s = (.ok (next, true), t))
    (hshort : next.payload.length ≤ 1) :
    removalPass expected reproducer chunk hchunk best s = (.ok next, t) := by
  rw [removalPass]
  split <;> simp_all

def zeroStep (i : ℕ) : CaseSeed × σ → Flow (SimulationError × σ) (CaseSeed × σ) := fun (best, s) =>
  if best.payload.getD i 0 = 0 then .next (best, s)
  else
    match executeWithRetry .default (reproducer (zeroByte best i)) s with
    | (.error e, s) => .stop (e, s)
    | (.ok sig, s) => .next (if sig = expected then zeroByte best i else best, s)

def zeroingPass (best : CaseSeed) : Call σ CaseSeed := fun s =>
  match forRange (zeroStep expected reproducer) 0 best.payload.length (best, s) with
  | .next (best, s) => (.ok best, s)
  | .stop (e, s) => (.error e, s)

def shrinkSeedPreservingSignature (seed : CaseSeed) : Call σ CaseSeed := fun s =>
  if seed.payload.isEmpty then (.ok seed, s)
  else
    match removalPass expected reproducer (max (seed.payload.length / 2) 1) (le_max_right _ _) seed s with
    | (.error e, s) => (.error e, s)
    | (.ok best, s) => zeroingPass expected reproducer best s

end Shrink

/-! A reproducer that only looks at the seed and never fails. -/

def steady {σ : Type} (f : CaseSeed → CrashSignature) (seed : CaseSeed) : Call σ CrashSignature :=
  fun s => (.ok (f seed), s)

section Steady

variable {σ : Type} {f : CaseSeed → CrashSignature} {expected : CrashSignature}

@[simp] theorem executeWithRetry_steady (config : RetryConfig) (seed : CaseSeed) (s : σ) :
    executeWithRetry config (steady f seed) s = (.ok (f seed), s) :=
  executeWithRetry_of_ok config rfl

structure Reduced (f : CaseSeed → CrashSignature) (expected : CrashSignature)
    (best next : CaseSeed) : Prop where
  sameId : next.id = best.id
  sublist : next.payload.Sublist best.payload
  kept : next = best ∨ f next = expected

theorem Reduced.refl (best : CaseSeed) : Reduced f expected best best :=
  ⟨rfl, List.Sublist.refl _, Or.inl rfl⟩

theorem Reduced.trans {best middle next : CaseSeed} (h : Reduced f expected best middle)
    (h' : Reduced f expected middle next) : Reduced f expected best next where
  sameId := h'.sameId.trans h.sameId
  sublist := h'.sublist.trans h.sublist
  kept := by
    rcases h'.kept with rfl | hf
    · exact h.kept
    · exact Or.inr hf

theorem Reduced.drain {best : CaseSeed} {start «end» : ℕ} (hle : start ≤ «end»)
    (h : f (drain best start «end») = expected) : Reduced f expected best (drain best start «end») := by
  refine ⟨rfl, ?_, Or.inr h⟩
  have hsplit := List.take_append_drop start best.payload
  simp only [Reproducer.drain]
  conv_rhs => rw [← hsplit]
  exact (List.Sublist.refl _).append (List.drop_sublist_drop_left best.payload hle)

def Rejected (f : CaseSeed → CrashSignature) (expected : CrashSignature) (chunk : ℕ)
    (best : CaseSeed) (start : ℕ) : Prop :=
  f (drain best start (min (start + chunk) best.payload.length)) ≠ expected

instance (chunk : ℕ) (best : CaseSeed) (start : ℕ) : Decidable (Rejected f expected chunk best start) :=
  inferInstanceAs (Decidable (_ ≠ _))

theorem removeChunks_accepted {chunk : ℕ} (hchunk : 1 ≤ chunk) {best : CaseSeed} {start : ℕ}
    (hin : start < best.payload.length) (h : ¬ Rejected f expected chunk best start)
    (improved : Bool) (s : σ) :
    removeChunks expected (steady f) chunk best improved start s =
      removeChunks expected (steady f) chunk
        (Reproducer.drain best start (min (start + chunk) best.payload.length)) true start s := by
  have hend : ¬ min (start + chunk) best.payload.length ≤ start := by omega
  rw [Rejected, not_not] at h
  rw [removeChunks, if_pos hin]
  simp only [if_neg hend, executeWithRetry_steady, if_pos h]

theorem removeChunks_rejected {chunk : ℕ} (hchunk : 1 ≤ chunk) {best : CaseSeed} {start : ℕ}
    (hin : start < best.payload.length) (h : Rejected f expected chunk best start)
    (improved : Bool) (s : σ) :
    removeChunks expected (steady f) chunk best improved start s =
      removeChunks expected (steady f) chunk best improved (start + 1) s := by
  have hend : ¬ min (start + chunk) best.payload.length ≤ start := by omega
  rw [Rejected] at h
  rw [removeChunks, if_pos hin]
  simp only [if_neg hend, executeWithRetry_steady, if_neg h]

theorem removeChunks_steady {chunk : ℕ} (hchunk : 1 ≤ chunk) (best : CaseSeed) (improved : Bool)
    (start : ℕ) (s : σ) :
    ∃ next flag, removeChunks expected (steady f) chunk best improved start s = (.ok (next, flag), s) ∧
      Reduced f expected best next ∧
      (flag = false → improved = false ∧
        ∀ i, start ≤ i → i < best.payload.length → Rejected f expected chunk best i) := by
  fun_induction removeChunks expected (steady f) chunk best improved start s with
  | case1 best improved start s hin «end» hend => omega
  | case2 best improved start s hin «end» hend candidate e t hrun =>
    rw [executeWithRetry_steady] at hrun
    cases hrun
  | case3 best improved start s hin «end» hend candidate t hrun ih =>
    rw [executeWithRetry_steady] at hrun
    obtain ⟨hf, rfl⟩ := Prod.mk.inj hrun
    obtain ⟨next, flag, heq, hreduced, hidle⟩ := ih
    refine ⟨next, flag, heq, (Reduced.drain (by omega) (Except.ok.inj hf)).trans hreduced, fun hflag => ?_⟩
    exact absurd (hidle hflag).1.symm Bool.false_ne_true
  | case4 best improved start s hin «end» hend candidate sig t hrun hsig ih =>
    rw [executeWithRetry_steady] at hrun
    obtain ⟨hf, rfl⟩ := Prod.mk.inj hrun
    obtain ⟨next, flag, heq, hreduced, hidle⟩ := ih
    refine ⟨next, flag, heq, hreduced, fun hflag => ⟨(hidle hflag).1, fun i hi hlt => ?_⟩⟩
    rcases Nat.lt_or_eq_of_le hi with hi | rfl
    · exact (hidle hflag).2 i hi hlt
    · intro hsame
      rw [← Except.ok.inj hf] at hsig
      exact hsig hsame
  | case5 best improved start s hin =>
    refine ⟨best, improved, rfl, Reduced.refl best, fun hflag => ⟨hflag, fun i hi hlt => ?_⟩⟩
    omega

theorem sweep_steady {chunk : ℕ} (hchunk : 1 ≤ chunk) {best next : CaseSeed} {flag : Bool} {s t : σ}
    (h : removeChunks expected (steady f) chunk best false 0 s = (.ok (next, flag), t)) :
    t = s ∧ Reduced f expected best next ∧
      (flag = false → ∀ i < best.payload.length, Rejected f expected chunk best i) := by
  obtain ⟨next', flag', heq, hreduced, hidle⟩ :=
    @removeChunks_steady _ f expected chunk hchunk best false 0 s
  obtain ⟨hresult, rfl⟩ := Prod.mk.inj (h.symm.trans heq)
  obtain ⟨rfl, rfl⟩ := Prod.mk.inj (Except.ok.inj hresult)
  exact ⟨rfl, hreduced, fun hflag i hi => (hidle hflag).2 i (Nat.zero_le i) hi⟩

theorem sweep_steady_ne_error {chunk : ℕ} (hchunk : 1 ≤ chunk) {best : CaseSeed} {e : SimulationError}
    {s t : σ} : removeChunks expected (steady f) chunk best false 0 s ≠ (.error e, t) := by
  obtain ⟨next, flag, heq, -⟩ := @removeChunks_steady _ f expected chunk hchunk best false 0 s
  simp [heq]

theorem removalPass_steady (chunk : ℕ) (hchunk : 1 ≤ chunk) (best : CaseSeed) (s : σ) :
    ∃ next, removalPass expected (steady f) chunk hchunk best s = (.ok next, s) ∧
      Reduced f expected best next ∧
      (next.payload.length ≤ 1 ∨ ∀ i < next.payload.length, Rejected f expected 1 next i) := by
  -- what a later sweep ends with holds of the payload before the sweep too
  have hlater : ∀ {best middle : CaseSeed} {s t : σ} {run : Except SimulationError CaseSeed × σ},
      t = s → Reduced f expected best middle →
      (∃ next, run = (.ok next, t) ∧ Reduced f expected middle next ∧
        (next.payload.length ≤ 1 ∨ ∀ i < next.payload.length, Rejected f expected 1 next i)) →
      ∃ next, run = (.ok next, s) ∧ Reduced f expected best next ∧
        (next.payload.length ≤ 1 ∨ ∀ i < next.payload.length, Rejected f expected 1 next i) := by
    rintro best middle s t run rfl hreduced ⟨next, hrun, hnext, hend⟩
    exact ⟨next, hrun, hreduced.trans hnext, hend⟩
  fun_induction removalPass expected (steady f) chunk hchunk best s with
  | case1 chunk hchunk best s e t hsweep => exact absurd hsweep (sweep_steady_ne_error hchunk)
  | case2 best s next t hchunk hsweep =>
    obtain ⟨rfl, hreduced, hidle⟩ := sweep_steady hchunk hsweep
    obtain rfl := removeChunks_idle expected (steady f) hsweep
    exact ⟨_, rfl, hreduced, Or.inr (hidle rfl)⟩
  | case3 chunk hchunk best s next t hsweep hone ih =>
    obtain ⟨ht, hreduced, -⟩ := sweep_steady hchunk hsweep
    exact hlater ht hreduced ih
  | case4 chunk hchunk best s next t hsweep hshort =>
    obtain ⟨rfl, hreduced, -⟩ := sweep_steady hchunk hsweep
    exact ⟨_, rfl, hreduced, Or.inl hshort⟩
  | case5 chunk hchunk best s next t hsweep hlong hover ih =>
    obtain ⟨ht, hreduced, -⟩ := sweep_steady hchunk hsweep
    exact hlater ht hreduced ih
  | case6 chunk hchunk best s next t hsweep hlong hwithin ih =>
    obtain ⟨ht, hreduced, -⟩ := sweep_steady hchunk hsweep
    exact hlater ht hreduced ih

def Zeroable (f : CaseSeed → CrashSignature) (expected : CrashSignature) (seed : CaseSeed) (i : ℕ) :
    Prop :=
  seed.payload.getD i 0 ≠ 0 ∧ f (zeroByte seed i) = expected

instance (seed : CaseSeed) (i : ℕ) : Decidable (Zeroable f expected seed i) :=
  inferInstanceAs (Decidable (_ ∧ _))

def zeroIfReproduced (f : CaseSeed → CrashSignature) (expected : CrashSignature) (seed : CaseSeed)
    (i : ℕ) : CaseSeed :=
  if Zeroable f expected seed i then zeroByte seed i else seed

def zeroed (f : CaseSeed → CrashSignature) (expected : CrashSignature) (seed : CaseSeed) : CaseSeed :=
  Histories.run (zeroIfReproduced f expected) seed (List.range seed.payload.length)

theorem zeroStep_steady (best : CaseSeed) (i : ℕ) (s : σ) :
    zeroStep expected (steady f) i (best, s) = .next (zeroIfReproduced f expected best i, s) := by
  by_cases hzero : best.payload.getD i 0 = 0
  · have hkept : ¬ Zeroable f expected best i := fun h => h.1 hzero
    rw [zeroStep, if_pos hzero, zeroIfReproduced, if_neg hkept]
  · have hiff : Zeroable f expected best i ↔ f (zeroByte best i) = expected := and_iff_right hzero
    rw [zeroStep, if_neg hzero, executeWithRetry_steady]
    simp only [zeroIfReproduced, hiff]

theorem forRange_zeroStep_steady (lo n : ℕ) (best : CaseSeed) (s : σ) :
    forRange (zeroStep expected (steady f)) lo n (best, s) =
      .next (Histories.run (zeroIfReproduced f expected) best (List.range' lo n), s) := by
  induction n generalizing lo best with
  | zero => rfl
  | succ n ih => rw [forRange, zeroStep_steady, List.range'_succ, Histories.run_cons, ← ih]

theorem zeroingPass_steady (best : CaseSeed) (s : σ) :
    zeroingPass expected (steady f) best s = (.ok (zeroed f expected best), s) := by
  rw [zeroingPass, forRange_zeroStep_steady, zeroed, List.range_eq_range']

structure Zeroed (f : CaseSeed → CrashSignature) (expected : CrashSignature)
    (best next : CaseSeed) : Prop where
  sameId : next.id = best.id
  sameLength : next.payload.length = best.payload.length
  kept : next = best ∨ f next = expected

theorem zeroed_spec (best : CaseSeed) : Zeroed f expected best (zeroed f expected best) := by
  apply Histories.run_invariant (I := Zeroed f expected best)
  · intro next i h
    rw [zeroIfReproduced]
    split_ifs with hzero
    · refine ⟨h.sameId, ?_, Or.inr hzero.2⟩
      rw [← h.sameLength]
      exact List.length_set
    · exact h
  · exact ⟨rfl, rfl, Or.inl rfl⟩

end Steady

theorem shrinkSeedPreservingSignature_steady {σ : Type} (f : CaseSeed → CrashSignature)
    (expected : CrashSignature) (seed : CaseSeed) (s : σ) :
    ∃ result, shrinkSeedPreservingSignature expected (steady f) seed s = (.ok result, s) ∧
      result.id = seed.id ∧ result.payload.length ≤ seed.payload.length ∧
      (result.payload = seed.payload ∨ f result = expected) := by
  by_cases hempty : seed.payload.isEmpty
  · exact ⟨seed, if_pos hempty, rfl, le_refl _, Or.inl rfl⟩
  obtain ⟨best, hpass, hreduced, -⟩ := @removalPass_steady _ f expected
    (max (seed.payload.length / 2) 1) (le_max_right _ _) seed s
  have hzeroed := @zeroed_spec f expected best
  refine ⟨zeroed f expected best, ?_, hzeroed.sameId.trans hreduced.sameId, ?_, ?_⟩
  · rw [shrinkSeedPreservingSignature, if_neg hempty, hpass]
    exact zeroingPass_steady best s
  · rw [hzeroed.sameLength]
    exact hreduced.sublist.length_le
  · rcases hzeroed.kept with hsame | hf
    · rw [hsame]
      exact hreduced.kept.imp (congrArg CaseSeed.payload) id
    · exact Or.inr hf

end CrashLab.Reproducer
