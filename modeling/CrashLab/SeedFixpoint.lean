import CrashLab.Deletions
import CrashLab.SeedShrink

namespace CrashLab.Reproducer

open Deletions Retry

theorem one_le_half (seed : CaseSeed) : 1 ≤ max (seed.payload.length / 2) 1 := le_max_right _ _

def firstPass {σ : Type} (expected : CrashSignature) (reproducer : CaseSeed → Call σ CrashSignature)
    (seed : CaseSeed) : Call σ CaseSeed := fun s =>
  if seed.payload.isEmpty then (.ok seed, s)
  else removalPass expected reproducer (max (seed.payload.length / 2) 1) (one_le_half seed) seed s

theorem shrink_eq_passes {σ : Type} (expected : CrashSignature)
    (reproducer : CaseSeed → Call σ CrashSignature) (seed : CaseSeed) (s : σ) :
    shrinkSeedPreservingSignature expected reproducer seed s =
      match firstPass expected reproducer seed s with
      | (.error e, s) => (.error e, s)
      | (.ok left, s) => zeroingPass expected reproducer left s := by
  rw [shrinkSeedPreservingSignature, firstPass]
  split_ifs with hempty
  · have hnil : seed.payload = [] := List.isEmpty_iff.mp hempty
    simp only [zeroingPass, hnil, List.length_nil, Loops.forRange]
  · rfl

variable {f : CaseSeed → CrashSignature} {expected : CrashSignature}

def Reproduces (f : CaseSeed → CrashSignature) (expected : CrashSignature) (id : ℕ)
    (payload : List UInt8) : Prop :=
  f ⟨id, payload⟩ = expected

theorem drain_byte (seed : CaseSeed) {i : ℕ} (hi : i < seed.payload.length) :
    drain seed i (min (i + 1) seed.payload.length) = ⟨seed.id, seed.payload.eraseIdx i⟩ := by
  rw [min_eq_left hi, List.eraseIdx_eq_take_drop_succ]
  rfl

theorem minimal_of_rejected {seed : CaseSeed}
    (h : ∀ i < seed.payload.length, Rejected f expected 1 seed i) :
    Minimal (Reproduces f expected seed.id) 0 seed.payload := by
  intro i _ hi
  have hrejected := h i hi
  rwa [Rejected, drain_byte seed hi] at hrejected

theorem firstPass_steady {σ : Type} (seed : CaseSeed) (s : σ) :
    ∃ left, firstPass expected (steady f) seed s = (.ok left, s) ∧ Reduced f expected seed left ∧
      (left.payload.length ≤ 1 ∨ Minimal (Reproduces f expected seed.id) 0 left.payload) := by
  by_cases hempty : seed.payload.isEmpty
  · refine ⟨seed, if_pos hempty, Reduced.refl seed, Or.inl ?_⟩
    simp [List.isEmpty_iff.mp hempty]
  · obtain ⟨left, hpass, hreduced, hend⟩ := @removalPass_steady _ f expected
      (max (seed.payload.length / 2) 1) (le_max_right _ _) seed s
    refine ⟨left, (if_neg hempty).trans hpass, hreduced, hend.imp_right fun hrejected => ?_⟩
    rw [← hreduced.sameId]
    exact minimal_of_rejected hrejected

theorem left_steady {σ : Type} (seed : CaseSeed) (s : σ) :
    ∃ left, firstPass expected (steady f) seed s = (.ok left, s) ∧ Reduced f expected seed left ∧
      shrinkSeedPreservingSignature expected (steady f) seed s = (.ok (zeroed f expected left), s) ∧
      (Minimal (Reproduces f expected seed.id) 0 left.payload ↔
        ¬ (left.payload.length = 1 ∧ Reproduces f expected seed.id [])) := by
  obtain ⟨left, hpass, hreduced, hend⟩ := @firstPass_steady f expected σ seed s
  refine ⟨left, hpass, hreduced, ?_, minimal_iff_of_short hend⟩
  rw [shrink_eq_passes, hpass]
  exact zeroingPass_steady left s

section Removals

variable (A : List UInt8 → Prop)

/-- One sweep over a payload, of which `kept` stays and the rest is still to come: a window of `chunk` bytes goes
where the payload without it is accepted, and else its first byte stays. -/
inductive Sweeps (chunk : ℕ) : List UInt8 → List UInt8 → List UInt8 → Prop
  | done {kept : List UInt8} : Sweeps chunk kept [] kept
  | cut {kept rest out : List UInt8} (hrest : rest ≠ []) (haccepted : A (kept ++ rest.drop chunk))
      (hsweep : Sweeps chunk kept (rest.drop chunk) out) : Sweeps chunk kept rest out
  | keep {kept rest out : List UInt8} {b : UInt8} (hrejected : ¬A (kept ++ (b :: rest).drop chunk))
      (hsweep : Sweeps chunk (kept ++ [b]) rest out) : Sweeps chunk kept (b :: rest) out

def Stuck (chunk : ℕ) (payload : List UInt8) : Prop :=
  ∀ i < payload.length, ¬A (payload.take i ++ payload.drop (i + chunk))

/-- Where the removals end that sweep over `payload` with windows of `chunk` bytes, and then again, with shorter
windows when none can go, until no single byte can or fewer than two are left. -/
inductive Settles : ℕ → List UInt8 → List UInt8 → Prop
  | settled {payload : List UInt8} (hstuck : Stuck A 1 payload) : Settles 1 payload payload
  | shorter {chunk : ℕ} {payload out : List UInt8} (hstuck : Stuck A chunk payload) (hchunk : chunk ≠ 1)
      (hnext : Settles (chunk / 2) payload out) : Settles chunk payload out
  | lone {chunk : ℕ} {payload out : List UInt8} (hsweep : Sweeps A chunk [] payload out) (hcut : out ≠ payload)
      (hshort : out.length ≤ 1) : Settles chunk payload out
  | again {chunk : ℕ} {payload next out : List UInt8} (hsweep : Sweeps A chunk [] payload next) (hcut : next ≠ payload)
      (hlong : ¬next.length ≤ 1)
      (hnext : Settles (if chunk > next.length then max (next.length / 2) 1 else chunk) next out) :
      Settles chunk payload out

def SettlesAt (payload out : List UInt8) : Prop := Settles A (max (payload.length / 2) 1) payload out

def LeftAlone (payload : List UInt8) : Prop := A [] ∧ ∃ b, SettlesAt A payload [b]

/-- The zeroing of `payload` comes to the position `i` with what is left: in the order of the positions, a byte is
zeroed where the payload without it is accepted. -/
inductive Zeroes (payload : List UInt8) : ℕ → List UInt8 → Prop
  | start : Zeroes payload 0 payload
  | zero {i : ℕ} {out : List UInt8} (hzeroes : Zeroes payload i out) (hbyte : out.getD i 0 ≠ 0)
      (haccepted : A (out.set i 0)) : Zeroes payload (i + 1) (out.set i 0)
  | keep {i : ℕ} {out : List UInt8} (hzeroes : Zeroes payload i out)
      (hrejected : out.getD i 0 ≠ 0 → ¬A (out.set i 0)) : Zeroes payload (i + 1) out

/-- The byte at `i` is zeroed, and another one can go that could not go before. -/
structure Frees (payload : List UInt8) (i : ℕ) : Prop where
  byte : payload.getD i 0 ≠ 0
  accepted : A (payload.set i 0)
  freed : ∃ j < payload.length, A ((payload.set i 0).eraseIdx j) ∧ ¬A (payload.eraseIdx j)

/-- The removals leave no single byte alone, and no zeroing behind them frees a byte. -/
structure Spared (payload : List UInt8) : Prop where
  single : ¬LeftAlone A payload
  zeroing : ∀ out i z, SettlesAt A payload out → Zeroes A out i z → ¬Frees A z i

def FreedLast (payload : List UInt8) : Prop :=
  ∃ out i z, SettlesAt A payload out ∧ Zeroes A out i z ∧ Frees A z i ∧
    ∀ k, i < k → (z.set i 0).getD k 0 ≠ 0 → ¬A ((z.set i 0).set k 0)

variable {A}

theorem Sweeps.unique {chunk : ℕ} {kept rest out out' : List UInt8} (h : Sweeps A chunk kept rest out)
    (h' : Sweeps A chunk kept rest out') : out = out' := by
  induction h with
  | done =>
    cases h' with
    | done => rfl
    | cut hrest _ _ => exact absurd rfl hrest
  | cut hrest haccepted _ ih =>
    cases h' with
    | done => exact absurd rfl hrest
    | cut _ _ hsweep => exact ih hsweep
    | keep hrejected _ => exact absurd haccepted hrejected
  | keep hrejected _ ih =>
    cases h' with
    | cut _ haccepted _ => exact absurd haccepted hrejected
    | keep _ hsweep => exact ih hsweep

theorem Sweeps.of_stuck {chunk : ℕ} {kept rest out : List UInt8} (h : Sweeps A chunk kept rest out)
    (hstuck : Stuck A chunk (kept ++ rest)) : out = kept ++ rest := by
  induction h with
  | done => exact (List.append_nil _).symm
  | @cut kept rest out hrest haccepted _ _ =>
    have hrejected := hstuck kept.length (by simpa [List.length_pos_iff] using hrest)
    rw [List.take_left, List.drop_append] at hrejected
    simp only [Nat.add_sub_cancel_left, List.drop_eq_nil_of_le (Nat.le_add_right _ _), List.nil_append] at hrejected
    exact absurd haccepted hrejected
  | keep _ _ ih =>
    rw [List.append_assoc, List.singleton_append] at ih
    exact ih hstuck

theorem Settles.unique {chunk : ℕ} {payload out out' : List UInt8} (h : Settles A chunk payload out)
    (h' : Settles A chunk payload out') : out = out' := by
  have hclash : ∀ {chunk : ℕ} {payload next : List UInt8}, Stuck A chunk payload → Sweeps A chunk [] payload next →
      next = payload := fun hstuck hsweep => hsweep.of_stuck hstuck
  induction h with
  | settled hstuck =>
    cases h' with
    | settled _ => rfl
    | shorter _ hchunk _ => exact absurd rfl hchunk
    | lone hsweep hcut _ => exact absurd (hclash hstuck hsweep) hcut
    | again hsweep hcut _ _ => exact absurd (hclash hstuck hsweep) hcut
  | shorter hstuck hchunk _ ih =>
    cases h' with
    | settled _ => exact absurd rfl hchunk
    | shorter _ _ hnext => exact ih hnext
    | lone hsweep hcut _ => exact absurd (hclash hstuck hsweep) hcut
    | again hsweep hcut _ _ => exact absurd (hclash hstuck hsweep) hcut
  | lone hsweep hcut hshort =>
    cases h' with
    | settled hstuck => exact absurd (hclash hstuck hsweep) hcut
    | shorter hstuck _ _ => exact absurd (hclash hstuck hsweep) hcut
    | lone hsweep' _ _ => exact hsweep.unique hsweep'
    | again hsweep' _ hlong _ => exact absurd (hsweep.unique hsweep' ▸ hshort) hlong
  | again hsweep hcut hlong _ ih =>
    cases h' with
    | settled hstuck => exact absurd (hclash hstuck hsweep) hcut
    | shorter hstuck _ _ => exact absurd (hclash hstuck hsweep) hcut
    | lone hsweep' _ hshort => exact absurd (hsweep.unique hsweep' ▸ hshort) hlong
    | again hsweep' _ _ hnext =>
      obtain rfl := hsweep.unique hsweep'
      exact ih hnext

theorem Zeroes.unique {payload out out' : List UInt8} {i : ℕ} (h : Zeroes A payload i out)
    (h' : Zeroes A payload i out') : out = out' := by
  induction h generalizing out' with
  | start =>
    cases h' with
    | start => rfl
  | zero _ hbyte haccepted ih =>
    cases h' with
    | zero hzeroes _ _ => rw [ih hzeroes]
    | keep hzeroes hrejected =>
      obtain rfl := ih hzeroes
      exact absurd haccepted (hrejected hbyte)
  | keep _ hrejected ih =>
    cases h' with
    | zero hzeroes hbyte haccepted =>
      obtain rfl := ih hzeroes
      exact absurd haccepted (hrejected hbyte)
    | keep hzeroes _ => exact ih hzeroes

theorem Zeroes.length {payload out : List UInt8} {i : ℕ} (h : Zeroes A payload i out) :
    out.length = payload.length := by
  induction h with
  | start => rfl
  | zero _ _ _ ih => rw [List.length_set, ih]
  | keep _ _ ih => exact ih

theorem lt_length_of_getD {payload : List UInt8} {i : ℕ} (hbyte : payload.getD i 0 ≠ 0) : i < payload.length := by
  by_contra hover
  apply hbyte
  rw [List.getD_eq_getElem?_getD, List.getElem?_eq_none (not_lt.mp hover), Option.getD_none]

theorem minimal_set {payload : List UInt8} {i : ℕ} (h : Minimal A 0 payload) (hbyte : payload.getD i 0 ≠ 0)
    (haccepted : A (payload.set i 0)) (hfrees : ¬Frees A payload i) : Minimal A 0 (payload.set i 0) := by
  intro j hj hlt hgone
  rw [List.length_set] at hlt
  exact hfrees ⟨hbyte, haccepted, j, hlt, hgone, h j hj hlt⟩

end Removals

theorem drain_window (best : CaseSeed) (start chunk : ℕ) :
    (drain best start (min (start + chunk) best.payload.length)).payload =
      best.payload.take start ++ best.payload.drop (start + chunk) := by
  rw [drain]
  rcases Nat.le_total (start + chunk) best.payload.length with hle | hle
  · rw [min_eq_left hle]
  · rw [min_eq_right hle, List.drop_length, List.drop_eq_nil_of_le hle]

theorem removeChunks_sweeps {σ : Type} {chunk : ℕ} (hchunk : 1 ≤ chunk) (best : CaseSeed) (improved : Bool)
    (start : ℕ) (s : σ) :
    ∃ next flag, removeChunks expected (steady f) chunk best improved start s = (.ok (next, flag), s) ∧
      next.id = best.id ∧ Sweeps (Reproduces f expected best.id) chunk (best.payload.take start)
        (best.payload.drop start) next.payload := by
  fun_induction removeChunks expected (steady f) chunk best improved start s with
  | case1 best improved start s hin «end» hend => omega
  | case2 best improved start s hin «end» hend candidate e t hrun =>
    rw [executeWithRetry_steady] at hrun
    cases hrun
  | case3 best improved start s hin «end» hend candidate t hrun ih =>
    rw [executeWithRetry_steady] at hrun
    obtain ⟨hf, rfl⟩ := Prod.mk.inj hrun
    obtain ⟨next, flag, heq, hid, hsweep⟩ := ih
    have hpayload : candidate.payload = best.payload.take start ++ (best.payload.drop start).drop chunk := by
      rw [List.drop_drop]
      exact drain_window best start chunk
    have hlength : (best.payload.take start).length = start := by
      rw [List.length_take, min_eq_left hin.le]
    refine ⟨next, flag, heq, hid, .cut ?_ ?_ ?_⟩
    · exact fun hnil => absurd (List.drop_eq_nil_iff.mp hnil) (not_le.mpr hin)
    · rw [← hpayload]
      exact Except.ok.inj hf
    · rw [hpayload, List.take_left' hlength, List.drop_left' hlength] at hsweep
      exact hsweep
  | case4 best improved start s hin «end» hend candidate sig t hrun hsig ih =>
    rw [executeWithRetry_steady] at hrun
    obtain ⟨hf, rfl⟩ := Prod.mk.inj hrun
    obtain ⟨next, flag, heq, hid, hsweep⟩ := ih
    refine ⟨next, flag, heq, hid, ?_⟩
    rw [List.drop_eq_getElem_cons hin]
    apply Sweeps.keep
    · rw [← List.drop_eq_getElem_cons hin, List.drop_drop]
      intro haccepted
      apply hsig
      rw [Reproduces, ← drain_window] at haccepted
      exact (Except.ok.inj hf).symm.trans haccepted
    · rwa [List.take_concat_get' best.payload start hin]
  | case5 best improved start s hin =>
    refine ⟨best, improved, rfl, rfl, ?_⟩
    rw [List.drop_eq_nil_of_le (not_lt.mp hin), List.take_of_length_le (not_lt.mp hin)]
    exact .done

theorem stuck_of_rejected {chunk : ℕ} {best : CaseSeed}
    (h : ∀ i < best.payload.length, Rejected f expected chunk best i) :
    Stuck (Reproduces f expected best.id) chunk best.payload := by
  intro i hi
  have hrejected := h i hi
  rw [Reproduces, ← drain_window]
  exact hrejected

theorem sweep_settles {σ : Type} {chunk : ℕ} (hchunk : 1 ≤ chunk) {best next : CaseSeed} {flag : Bool} {s t : σ}
    (h : removeChunks expected (steady f) chunk best false 0 s = (.ok (next, flag), t)) :
    next.id = best.id ∧ Sweeps (Reproduces f expected best.id) chunk [] best.payload next.payload := by
  obtain ⟨next', flag', heq, hid, hsweep⟩ := @removeChunks_sweeps f expected σ chunk hchunk best false 0 s
  obtain ⟨rfl, rfl⟩ := Prod.mk.inj (Except.ok.inj (Prod.mk.inj (h.symm.trans heq)).1)
  exact ⟨hid, hsweep⟩

theorem improved_ne {σ : Type} {chunk : ℕ} {best next : CaseSeed} {s t : σ}
    (h : removeChunks expected (steady f) chunk best false 0 s = (.ok (next, true), t)) :
    next.payload ≠ best.payload := by
  intro hsame
  have hcut := removeChunks_improved expected (steady f) h
  rw [hsame] at hcut
  exact lt_irrefl _ hcut

theorem improved_settles {σ : Type} {chunk : ℕ} (hchunk : 1 ≤ chunk) {best next : CaseSeed} {s t : σ}
    {out : List UInt8} (h : removeChunks expected (steady f) chunk best false 0 s = (.ok (next, true), t))
    (hlong : ¬next.payload.length ≤ 1)
    (hnext : Settles (Reproduces f expected next.id)
      (if chunk > next.payload.length then max (next.payload.length / 2) 1 else chunk) next.payload out) :
    Settles (Reproduces f expected best.id) chunk best.payload out := by
  obtain ⟨hid, hsweeps⟩ := sweep_settles hchunk h
  rw [hid] at hnext
  exact .again hsweeps (improved_ne h) hlong hnext

theorem removalPass_settles {σ : Type} (chunk : ℕ) (hchunk : 1 ≤ chunk) (best : CaseSeed) (s : σ) {left : CaseSeed}
    (h : removalPass expected (steady f) chunk hchunk best s = (.ok left, s)) :
    Settles (Reproduces f expected best.id) chunk best.payload left.payload := by
  revert h
  fun_induction removalPass expected (steady f) chunk hchunk best s with
  | case1 chunk hchunk best s e t hsweep => exact absurd hsweep (sweep_steady_ne_error hchunk)
  | case2 best s next t hchunk hsweep =>
    intro h
    obtain ⟨-, -, hidle⟩ := sweep_steady hchunk hsweep
    obtain rfl := removeChunks_idle expected (steady f) hsweep
    obtain rfl := Except.ok.inj (Prod.mk.inj h).1
    exact .settled (stuck_of_rejected (hidle rfl))
  | case3 chunk hchunk best s next t hsweep hone ih =>
    obtain ⟨rfl, -, hidle⟩ := sweep_steady hchunk hsweep
    obtain rfl := removeChunks_idle expected (steady f) hsweep
    exact fun h => .shorter (stuck_of_rejected (hidle rfl)) hone (ih h)
  | case4 chunk hchunk best s next t hsweep hshort =>
    intro h
    obtain rfl := Except.ok.inj (Prod.mk.inj h).1
    exact .lone (sweep_settles hchunk hsweep).2 (improved_ne hsweep) hshort
  | case5 chunk hchunk best s next t hsweep hlong hover ih =>
    intro h
    obtain ⟨rfl, -, -⟩ := sweep_steady hchunk hsweep
    apply improved_settles hchunk hsweep hlong
    rw [if_pos hover]
    exact ih h
  | case6 chunk hchunk best s next t hsweep hlong hwithin ih =>
    intro h
    obtain ⟨rfl, -, -⟩ := sweep_steady hchunk hsweep
    apply improved_settles hchunk hsweep hlong
    rw [if_neg hwithin]
    exact ih h

theorem firstPass_settles {σ : Type} {seed left : CaseSeed} {s : σ}
    (h : firstPass expected (steady f) seed s = (.ok left, s)) :
    SettlesAt (Reproduces f expected seed.id) seed.payload left.payload := by
  unfold firstPass at h
  split_ifs at h with hempty
  · obtain rfl := Except.ok.inj (Prod.mk.inj h).1
    rw [SettlesAt, List.isEmpty_iff.mp hempty]
    apply Settles.settled
    exact fun i hi => absurd hi (Nat.not_lt_zero i)
  · exact removalPass_settles _ _ seed s h

/-- What the zeroing has left when it comes to the position `n`. -/
def zeroedUpTo (f : CaseSeed → CrashSignature) (expected : CrashSignature) (left : CaseSeed) (n : ℕ) : CaseSeed :=
  Histories.run (zeroIfReproduced f expected) left (List.range n)

theorem zeroedUpTo_succ (left : CaseSeed) (n : ℕ) :
    zeroedUpTo f expected left (n + 1) = zeroIfReproduced f expected (zeroedUpTo f expected left n) n := by
  rw [zeroedUpTo, List.range_succ, Histories.run_append]
  rfl

theorem zeroedUpTo_id (left : CaseSeed) (n : ℕ) : (zeroedUpTo f expected left n).id = left.id := by
  induction n with
  | zero => rfl
  | succ n ih =>
    rw [zeroedUpTo_succ, zeroIfReproduced]
    split_ifs
    · exact ih
    · exact ih

theorem zeroable_iff (left : CaseSeed) (n i : ℕ) :
    Zeroable f expected (zeroedUpTo f expected left n) i ↔
      (zeroedUpTo f expected left n).payload.getD i 0 ≠ 0 ∧
        Reproduces f expected left.id ((zeroedUpTo f expected left n).payload.set i 0) := by
  rw [Zeroable, Reproduces, zeroByte, zeroedUpTo_id]

theorem zeroes_zeroedUpTo (left : CaseSeed) (n : ℕ) :
    Zeroes (Reproduces f expected left.id) left.payload n (zeroedUpTo f expected left n).payload := by
  induction n with
  | zero => exact .start
  | succ n ih =>
    rw [zeroedUpTo_succ, zeroIfReproduced]
    split_ifs with hzeroable
    · rw [zeroable_iff] at hzeroable
      exact ih.zero hzeroable.1 hzeroable.2
    · rw [zeroable_iff, not_and] at hzeroable
      exact ih.keep hzeroable

theorem minimal_zeroedUpTo {left : CaseSeed} (h : Minimal (Reproduces f expected left.id) 0 left.payload)
    (hfrees : ∀ i z, Zeroes (Reproduces f expected left.id) left.payload i z →
      ¬Frees (Reproduces f expected left.id) z i) (n : ℕ) :
    Minimal (Reproduces f expected left.id) 0 (zeroedUpTo f expected left n).payload := by
  induction n with
  | zero => exact h
  | succ n ih =>
    rw [zeroedUpTo_succ, zeroIfReproduced]
    split_ifs with hzeroable
    · rw [zeroable_iff] at hzeroable
      exact minimal_set ih hzeroable.1 hzeroable.2 (hfrees n _ (zeroes_zeroedUpTo left n))
    · exact ih

theorem zeroed_eq_upTo {left : CaseSeed} {i : ℕ} (hi : i < left.payload.length)
    (hrest : ∀ k, i < k → ¬Zeroable f expected (zeroedUpTo f expected left (i + 1)) k) :
    zeroed f expected left = zeroedUpTo f expected left (i + 1) := by
  have hsplit : List.range left.payload.length =
      List.range (i + 1) ++ List.range' (i + 1) (left.payload.length - (i + 1)) := by
    have hlength : left.payload.length = (i + 1) + (left.payload.length - (i + 1)) := by omega
    rw [List.range_eq_range', List.range_eq_range', hlength, ← List.range'_append_1, Nat.zero_add,
      Nat.add_sub_cancel_left]
  rw [zeroed, hsplit, Histories.run_append]
  apply Histories.run_eq_self
  intro k hk
  rw [List.mem_range'_1] at hk
  exact if_neg (hrest k hk.1)

theorem spared_seed_minimal (f : CaseSeed → CrashSignature) (expected : CrashSignature) {σ : Type} (seed : CaseSeed)
    (s : σ) :
    ∃ result, shrinkSeedPreservingSignature expected (steady f) seed s = (.ok result, s) ∧
      (Spared (Reproduces f expected seed.id) seed.payload →
        Minimal (Reproduces f expected seed.id) 0 result.payload) ∧
      (LeftAlone (Reproduces f expected seed.id) seed.payload ∨ FreedLast (Reproduces f expected seed.id) seed.payload →
        ¬Minimal (Reproduces f expected seed.id) 0 result.payload) := by
  obtain ⟨left, hpass, hreduced, hresult, hleft⟩ := @left_steady f expected σ seed s
  have hsettles := firstPass_settles hpass
  have hlength := (@zeroed_spec f expected left).sameLength
  rw [← hreduced.sameId] at hsettles hleft ⊢
  refine ⟨_, hresult, ?_, ?_⟩
  · intro hspared
    apply minimal_zeroedUpTo
    · rw [hleft]
      rintro ⟨hone, hempty⟩
      obtain ⟨b, hb⟩ := List.length_eq_one_iff.mp hone
      exact hspared.single ⟨hempty, b, hb ▸ hsettles⟩
    · exact fun i z hzeroes => hspared.zeroing left.payload i z hsettles hzeroes
  · rintro (⟨hempty, b, hb⟩ | ⟨out, i, z, hout, hzeroes, hfrees, hlast⟩) hminimal
    · have hone : left.payload.length = 1 := congrArg List.length (hsettles.unique hb)
      exact (minimal_iff_of_short (Or.inr hminimal)).mp hminimal ⟨hlength.trans hone, hempty⟩
    · obtain rfl := hsettles.unique hout
      have hnext : z.set i 0 = (zeroedUpTo f expected left (i + 1)).payload :=
        (hzeroes.zero hfrees.byte hfrees.accepted).unique (zeroes_zeroedUpTo left (i + 1))
      have hi : i < left.payload.length := by
        rw [← hzeroes.length]
        exact lt_length_of_getD hfrees.byte
      have hend : zeroed f expected left = zeroedUpTo f expected left (i + 1) := by
        apply zeroed_eq_upTo hi
        intro k hk
        rw [zeroable_iff, ← hnext, not_and]
        exact hlast k hk
      obtain ⟨j, hj, hgone, -⟩ := hfrees.freed
      rw [hend, ← hnext] at hminimal
      exact hminimal j (Nat.zero_le j) (by rwa [List.length_set]) hgone

section Samples

def trap : CrashSignature := ⟨"trap", 0, 0⟩

def among (payloads : List (List UInt8)) (seed : CaseSeed) : CrashSignature :=
  if seed.payload ∈ payloads then trap else ⟨"none", 0, 0⟩

theorem firstPass_short_sample :
    firstPass trap (steady (among [[1, 2], [1], []])) ⟨7, [1, 2]⟩ () = (.ok ⟨7, [1]⟩, ()) := by
  have hsweep : removeChunks trap (steady (among [[1, 2], [1], []])) 1 ⟨7, [1, 2]⟩ false 0 () =
      (.ok (⟨7, [1]⟩, true), ()) := by
    rw [removeChunks_rejected (le_refl 1) (by decide) (by decide),
      removeChunks_accepted (le_refl 1) (by decide) (by decide)]
    exact removeChunks_done _ _ (by decide) _ _
  exact removalPass_short _ _ hsweep (by decide)

theorem firstPass_idle_sample :
    firstPass trap (steady (among [[1, 1], [0, 1], [0]])) ⟨7, [1, 1]⟩ () = (.ok ⟨7, [1, 1]⟩, ()) := by
  have hsweep : removeChunks trap (steady (among [[1, 1], [0, 1], [0]])) 1 ⟨7, [1, 1]⟩ false 0 () =
      (.ok (⟨7, [1, 1]⟩, false), ()) := by
    rw [removeChunks_rejected (le_refl 1) (by decide) (by decide),
      removeChunks_rejected (le_refl 1) (by decide) (by decide)]
    exact removeChunks_done _ _ (by decide) _ _
  exact removalPass_idle _ _ hsweep

def elsewhere : List (List UInt8) := [[], [7], [1, 2], [1, 0]]

theorem zeroes_elsewhere {i : ℕ} {z : List UInt8} (h : Zeroes (Reproduces (among elsewhere) trap 7) [1, 2] i z) :
    z = [1, 2] ∨ z = [1, 0] := by
  induction h with
  | start => exact .inl rfl
  | @zero i out _ hbyte haccepted ih =>
    have hi := lt_length_of_getD hbyte
    unfold Reproduces at haccepted
    rcases ih with rfl | rfl
    · change i < 2 at hi
      interval_cases i
      · exact absurd haccepted (by decide)
      · exact .inr rfl
    · change i < 2 at hi
      interval_cases i
      · exact absurd haccepted (by decide)
      · exact absurd rfl hbyte
  | keep _ _ ih => exact ih

theorem spared_elsewhere : Spared (Reproduces (among elsewhere) trap 7) [1, 2] := by
  have hstuck : Stuck (Reproduces (among elsewhere) trap 7) 1 [1, 2] := by
    intro i hi
    change i < 2 at hi
    unfold Reproduces
    interval_cases i <;> decide
  have hsettled : SettlesAt (Reproduces (among elsewhere) trap 7) [1, 2] [1, 2] := .settled hstuck
  constructor
  · rintro ⟨-, b, hb⟩
    exact absurd (congrArg List.length (hsettled.unique hb)) (by simp)
  · rintro out i z hout hzeroes ⟨hbyte, -, j, hj, hfreed, -⟩
    obtain rfl := hsettled.unique hout
    have hi := lt_length_of_getD hbyte
    unfold Reproduces at hfreed
    rcases zeroes_elsewhere hzeroes with rfl | rfl
    · change i < 2 at hi
      change j < 2 at hj
      interval_cases i <;> interval_cases j <;> exact absurd hfreed (by decide)
    · change i < 2 at hi
      change j < 2 at hj
      interval_cases i <;> interval_cases j <;> exact absurd hfreed (by decide)

end Samples

theorem elsewhere_shrinks_to_fixpoint :
    ∃ result, shrinkSeedPreservingSignature trap (steady (among elsewhere)) ⟨7, [1, 2]⟩ () = (.ok result, ()) ∧
      Minimal (Reproduces (among elsewhere) trap 7) 0 result.payload := by
  obtain ⟨result, hresult, hspared, -⟩ := spared_seed_minimal (among elsewhere) trap ⟨7, [1, 2]⟩ ()
  exact ⟨result, hresult, hspared spared_elsewhere⟩

theorem removable_bytes_left :
    (shrinkSeedPreservingSignature trap (steady (among [[1, 2], [1], []])) ⟨7, [1, 2]⟩ () =
        (.ok ⟨7, [1]⟩, ()) ∧
      ¬ Minimal (Reproduces (among [[1, 2], [1], []]) trap 7) 0 [1]) ∧
    shrinkSeedPreservingSignature trap (steady (among [[1, 1], [0, 1], [0]])) ⟨7, [1, 1]⟩ () =
        (.ok ⟨7, [0, 1]⟩, ()) ∧
      ¬ Minimal (Reproduces (among [[1, 1], [0, 1], [0]]) trap 7) 0 [0, 1] := by
  refine ⟨⟨?_, fun h => h 0 (le_refl 0) (by decide) rfl⟩, ?_,
    fun h => h 1 (Nat.zero_le 1) (by decide) rfl⟩
  · rw [shrink_eq_passes, firstPass_short_sample]
    exact zeroingPass_steady _ ()
  · rw [shrink_eq_passes, firstPass_idle_sample]
    exact zeroingPass_steady _ ()

end CrashLab.Reproducer
