import CrashLab.Deletions
import CrashLab.Loops
import CrashLab.Oracles
import CrashLab.Seeds

namespace CrashLab.Shrink

open Loops Oracles Deletions

structure ShrinkOutcome where
  payload : List UInt8
  iterations : ℕ
  reduced : Bool
  budgetExhausted : Bool
deriving DecidableEq, Repr

def withoutPart (current : List UInt8) (parts part : ℕ) : List UInt8 :=
  let start := part * current.length / parts
  let «end» := (part + 1) * current.length / parts
  current.take start ++ current.drop «end»

inductive Round where
  | cut
  | accepted (candidate : List UInt8)
  | rejected
deriving DecidableEq, Repr

section Search

variable (check : List UInt8 → Bool)

def tryPart (current : List UInt8) (parts part : ℕ) (o : Oracle (List UInt8)) :
    Flow (Round × Oracle (List UInt8)) (Oracle (List UInt8)) :=
  let candidate := withoutPart current parts part
  match o.accepts check candidate with
  | (none, o) => .stop (.cut, o)
  | (some true, o) => .stop (.accepted candidate, o)
  | (some false, o) => .next o

def tryParts (current : List UInt8) (parts : ℕ) (o : Oracle (List UInt8)) :
    Round × Oracle (List UInt8) :=
  (forRange (tryPart check current parts) 0 parts o).orElse fun o => (.rejected, o)

theorem withoutPart_sublist (current : List UInt8) (parts part : ℕ) :
    (withoutPart current parts part).Sublist current := by
  have hle : part * current.length / parts ≤ (part + 1) * current.length / parts :=
    Nat.div_le_div_right (Nat.mul_le_mul_right _ (Nat.le_succ part))
  have happend := List.take_append_drop (part * current.length / parts) current
  rw [withoutPart]
  conv_rhs => rw [← happend]
  exact (List.Sublist.refl _).append (List.drop_sublist_drop_left current hle)

theorem withoutPart_shorter {current : List UInt8} {parts part : ℕ} (hpart : part < parts)
    (hparts : parts ≤ current.length) : (withoutPart current parts part).length < current.length := by
  have hpos : 0 < parts := Nat.zero_lt_of_lt hpart
  have hstep : part * current.length / parts + 1 ≤ (part + 1) * current.length / parts := by
    rw [← Nat.add_div_right _ hpos, Nat.succ_mul]
    exact Nat.div_le_div_right (Nat.add_le_add_left hparts _)
  have hend : (part + 1) * current.length / parts ≤ current.length := by
    calc (part + 1) * current.length / parts
        ≤ parts * current.length / parts := Nat.div_le_div_right (Nat.mul_le_mul_right _ hpart)
      _ = current.length := Nat.mul_div_cancel_left _ hpos
  rw [withoutPart, List.length_append, List.length_take, List.length_drop]
  omega

def Round.Sound (check : List UInt8 → Bool) (current : List UInt8) : Round → Prop
  | .accepted candidate => check candidate = true ∧ candidate.Sublist current ∧
      candidate.length < current.length
  | _ => True

variable {check}

theorem tryPart_sound {current : List UInt8} {parts part : ℕ} (hpart : part < parts)
    (hparts : parts ≤ current.length) (o : Oracle (List UInt8)) :
    (tryPart check current parts part o).All (fun r => r.1.Sound check current) fun _ => True := by
  simp only [tryPart, Oracle.accepts]
  by_cases hspent : o.used ≥ o.max
  · simp only [if_pos hspent]
    trivial
  · simp only [if_neg hspent]
    cases hc : check (withoutPart current parts part) with
    | false => trivial
    | true => exact ⟨hc, withoutPart_sublist current parts part, withoutPart_shorter hpart hparts⟩

theorem tryParts_sound {current : List UInt8} {parts : ℕ} (hparts : parts ≤ current.length)
    (o : Oracle (List UInt8)) : (tryParts check current parts o).1.Sound check current := by
  have hloop := @forRange_rule _ _ (tryPart check current parts) (fun _ _ => True)
    (fun r => r.1.Sound check current) parts 0 o trivial
    fun i s _ hi _ => tryPart_sound (by omega) hparts s
  exact hloop.orElse fun _ _ => trivial

theorem tryParts_asks (current : List UInt8) (parts : ℕ) :
    ∃ log round, round ≠ .cut ∧ Asks (· = .cut) (tryParts check current parts) log round := by
  suffices hall : ∀ n lo, ∃ log round, round ≠ Round.cut ∧
      Asks (· = .cut) (fun o => (forRange (tryPart check current parts) lo n o).orElse
        fun o => (.rejected, o)) log round by
    exact hall parts 0
  intro n
  induction n with
  | zero => exact fun lo => ⟨[], .rejected, by simp, Asks.pure fun o => rfl⟩
  | succ n ih =>
    intro lo
    have hcut : ∀ o : Oracle (List UInt8), (o.accepts check (withoutPart current parts lo)).1 = none →
        (forRange (tryPart check current parts) lo (n + 1) o).orElse (fun o => (Round.rejected, o)) =
          (.cut, (o.accepts check (withoutPart current parts lo)).2) := by
      intro o ho
      rw [forRange, tryPart, Prod.fst_eq_iff.mp ho]
      rfl
    by_cases hc : check (withoutPart current parts lo) = true
    · have hdone : Asks (· = .cut) (fun o : Oracle (List UInt8) =>
          (Round.accepted (withoutPart current parts lo), o)) []
          (.accepted (withoutPart current parts lo)) := Asks.pure fun o => rfl
      refine ⟨_, .accepted (withoutPart current parts lo), by simp, Asks.ask rfl hcut ?_ hdone⟩
      intro o ho
      rw [hc] at ho
      rw [forRange, tryPart, Prod.fst_eq_iff.mp ho]
      rfl
    · obtain ⟨log, round, hround, hasks⟩ := ih (lo + 1)
      refine ⟨_, round, hround, Asks.ask rfl hcut ?_ hasks⟩
      intro o ho
      rw [Bool.not_eq_true] at hc
      rw [hc] at ho
      rw [forRange, tryPart, Prod.fst_eq_iff.mp ho]

variable (check)

def search (current : List UInt8) (granularity : ℕ) (hg : 2 ≤ granularity)
    (o : Oracle (List UInt8)) : List UInt8 × Oracle (List UInt8) :=
  if hlen : current.length ≥ 2 then
    let parts := min granularity current.length
    match hround : tryParts check current parts o with
    | (.cut, o') => (current, o')
    | (.accepted candidate, o') => search candidate (max (parts - 1) 2) (le_max_right _ _) o'
    | (.rejected, o') =>
      if parts ≥ current.length then (current, o')
      else search current (min (parts * 2) current.length) (by omega) o'
  else (current, o)
termination_by (current.length, current.length - granularity)
decreasing_by
  · have hsound : (tryParts check current (min granularity current.length) o).1.Sound check current :=
      tryParts_sound (min_le_right granularity current.length) o
    rw [hround] at hsound
    exact Prod.Lex.left _ _ hsound.2.2
  · exact Prod.Lex.right _ (by omega)

attribute [grind =] search

/-- Shrinks `payload` while `check` keeps returning `true`, in at most `maxIterations` checks. Also
returns the candidates that were checked. -/
def shrinkPayload (payload : List UInt8) (maxIterations : ℕ) :
    ShrinkOutcome × List (List UInt8) :=
  let o : Oracle (List UInt8) := ⟨maxIterations, 0, false, []⟩
  match o.accepts check payload with
  | (some true, o) =>
    let (current, o) := search check payload 2 (le_refl 2) o
    (⟨current, o.used, current.length < payload.length, o.exhausted⟩, o.calls)
  | (_, o) => (⟨payload, o.used, false, o.exhausted⟩, o.calls)

variable {check}

def Shrunk (check : List UInt8 → Bool) (payload result : List UInt8) : Prop :=
  result.Sublist payload ∧ (check payload = true → check result = true)

theorem Shrunk.refl (payload : List UInt8) : Shrunk check payload payload :=
  ⟨List.Sublist.refl _, id⟩

theorem Shrunk.of_accepted {payload candidate result : List UInt8}
    (hc : check candidate = true) (hsub : candidate.Sublist payload)
    (h : Shrunk check candidate result) : Shrunk check payload result :=
  ⟨h.1.trans hsub, fun _ => h.2 hc⟩

theorem tryParts_asked_sound {current : List UInt8} {parts : ℕ} (hparts : parts ≤ current.length)
    {log : List (List UInt8)} {round : Round}
    (h : Asks (· = .cut) (tryParts check current parts) log round) : round.Sound check current := by
  have hrun := h.paid ⟨log.length, 0, false, []⟩ (by simp [Oracle.room])
  have hsound := @tryParts_sound check _ _ hparts ⟨log.length, 0, false, []⟩
  rwa [hrun] at hsound

theorem search_eq {current : List UInt8} (hlen : current.length ≥ 2) {granularity : ℕ}
    (hg : 2 ≤ granularity) (o : Oracle (List UInt8)) :
    search check current granularity hg o =
      match tryParts check current (min granularity current.length) o with
      | (.cut, o) => (current, o)
      | (.accepted candidate, o) =>
        search check candidate (max (min granularity current.length - 1) 2) (le_max_right _ _) o
      | (.rejected, o) =>
        if min granularity current.length ≥ current.length then (current, o)
        else search check current (min (min granularity current.length * 2) current.length)
          (by omega) o := by
  rw [search, dif_pos hlen]
  dsimp only
  split <;> rename_i heq <;> rw [heq]

theorem search_asks (current : List UInt8) (granularity : ℕ) (hg : 2 ≤ granularity) :
    ∃ log result, Shrunk check current result ∧
      Asks (Shrunk check current) (search check current granularity hg) log result := by
  by_cases hlen : current.length ≥ 2
  swap
  · exact ⟨[], current, Shrunk.refl current, Asks.pure fun o => by rw [search, dif_neg hlen]⟩
  obtain ⟨log, round, hround, hasks⟩ := @tryParts_asks check current
    (min granularity current.length)
  have hsound := tryParts_asked_sound (min_le_right granularity current.length) hasks
  have hcut : ∀ o, (tryParts check current (min granularity current.length) o).1 = .cut →
      ∃ c, Shrunk check current c ∧ search check current granularity hg o =
        (c, (tryParts check current (min granularity current.length) o).2) := by
    intro o ho
    refine ⟨current, Shrunk.refl current, ?_⟩
    rw [search_eq hlen, Prod.fst_eq_iff.mp ho]
  cases round with
  | cut => exact absurd rfl hround
  | accepted candidate =>
    obtain ⟨hc, hsub, hshorter⟩ := hsound
    obtain ⟨log', result, hres, hasks'⟩ := search_asks candidate
      (max (min granularity current.length - 1) 2) (le_max_right _ _)
    refine ⟨_, result, hres.of_accepted hc hsub,
      hasks.andThen (hasks'.mono fun c hres' => hres'.of_accepted hc hsub) ?_ hcut⟩
    intro o ho
    rw [search_eq hlen, Prod.fst_eq_iff.mp ho]
  | rejected =>
    by_cases hfine : min granularity current.length ≥ current.length
    · refine ⟨_, current, Shrunk.refl current,
        hasks.andThen (Asks.pure fun o : Oracle (List UInt8) => (rfl : _ = (current, o))) ?_ hcut⟩
      intro o ho
      rw [search_eq hlen, Prod.fst_eq_iff.mp ho]
      exact if_pos hfine
    · obtain ⟨log', result, hres, hasks'⟩ := search_asks current
        (min (min granularity current.length * 2) current.length) (by omega)
      refine ⟨_, result, hres, hasks.andThen hasks' ?_ hcut⟩
      intro o ho
      rw [search_eq hlen, Prod.fst_eq_iff.mp ho]
      exact if_neg hfine
termination_by (current.length, current.length - granularity)
decreasing_by
  · exact Prod.Lex.left _ _ hshorter
  · exact Prod.Lex.right _ (by omega)

def shrinkRun (check : List UInt8 → Bool) (payload : List UInt8) (o : Oracle (List UInt8)) :
    List UInt8 × Oracle (List UInt8) :=
  match o.accepts check payload with
  | (some true, o) => search check payload 2 (le_refl 2) o
  | (_, o) => (payload, o)

theorem shrinkPayload_eq (payload : List UInt8) (maxIterations : ℕ) :
    shrinkPayload check payload maxIterations =
      let (current, o) := shrinkRun check payload ⟨maxIterations, 0, false, []⟩
      (⟨current, o.used, current.length < payload.length, o.exhausted⟩, o.calls) := by
  unfold shrinkPayload shrinkRun
  simp only
  split
  · rfl
  · simp

def ShrunkOrKept (check : List UInt8 → Bool) (payload result : List UInt8) : Prop :=
  Shrunk check payload result ∧ (check payload = false → result = payload)

theorem shrinkRun_asks (payload : List UInt8) : ∃ log result, ShrunkOrKept check payload result ∧
    Asks (ShrunkOrKept check payload) (shrinkRun check payload) log result := by
  have hkept : ShrunkOrKept check payload payload := ⟨Shrunk.refl payload, fun _ => rfl⟩
  have hcut : ∀ o : Oracle (List UInt8), (o.accepts check payload).1 = none →
      shrinkRun check payload o = (payload, (o.accepts check payload).2) := by
    intro o ho
    rw [shrinkRun, Prod.fst_eq_iff.mp ho]
  cases hc : check payload with
  | false =>
    refine ⟨_, payload, hkept, Asks.ask hkept hcut ?_
      (Asks.pure fun o : Oracle (List UInt8) => (rfl : _ = (payload, o)))⟩
    intro o ho
    rw [hc] at ho
    rw [shrinkRun, Prod.fst_eq_iff.mp ho]
  | true =>
    have hshrunk : ∀ c, Shrunk check payload c → ShrunkOrKept check payload c := by
      intro c h
      refine ⟨h, fun hfalse => ?_⟩
      rw [hc] at hfalse
      contradiction
    obtain ⟨log, result, hres, hasks⟩ := @search_asks check payload 2 (le_refl 2)
    refine ⟨_, result, hshrunk result hres, Asks.ask hkept hcut ?_ (hasks.mono hshrunk)⟩
    intro o ho
    rw [hc] at ho
    rw [shrinkRun, Prod.fst_eq_iff.mp ho]

theorem shrinkPayload_cases (payload : List UInt8) : ∃ log : List (List UInt8),
    (∃ result, ShrunkOrKept check payload result ∧ ∀ budget, log.length ≤ budget →
      shrinkPayload check payload budget =
        (⟨result, log.length, result.length < payload.length, false⟩, log)) ∧
    ∀ budget < log.length, ∃ result, ShrunkOrKept check payload result ∧
      shrinkPayload check payload budget =
        (⟨result, budget, result.length < payload.length, true⟩, log.take budget) := by
  obtain ⟨log, result, hres, hasks⟩ := @shrinkRun_asks check payload
  refine ⟨log, ⟨result, hres, fun budget hle => ?_⟩, fun budget hlt => ?_⟩
  · have hrun := hasks.paid ⟨budget, 0, false, []⟩ hle
    rw [shrinkPayload_eq, hrun]
    simp [Oracle.answer]
  · obtain ⟨c, hc, hrun⟩ := hasks.cut ⟨budget, 0, false, []⟩ hlt
    refine ⟨c, hc, ?_⟩
    rw [shrinkPayload_eq, hrun]
    simp [Oracle.answer, Oracle.cut, Oracle.room, hlt.le]

end Search

theorem shrinkPayload_contract (check : List UInt8 → Bool) (payload : List UInt8) :
    (∀ budget,
      let (outcome, calls) := shrinkPayload check payload budget
      calls.length = outcome.iterations ∧ outcome.iterations ≤ budget ∧
      outcome.payload.Sublist payload ∧
      (check payload = true → check outcome.payload = true) ∧
      (check payload = false → outcome.payload = payload)) ∧
    ∃ full,
      (∀ budget, (shrinkPayload check payload budget).1.budgetExhausted = true ↔ budget < full) ∧
      (∀ budget ≥ full, shrinkPayload check payload budget = shrinkPayload check payload full) ∧
      (shrinkPayload check payload full).1.iterations = full ∧
      ∀ budget, (shrinkPayload check payload budget).2 =
        (shrinkPayload check payload full).2.take budget := by
  obtain ⟨log, ⟨result, hres, henough⟩, hshort⟩ := @shrinkPayload_cases check payload
  refine ⟨fun budget => ?_, log.length, fun budget => ?_, fun budget hle => ?_, ?_, fun budget => ?_⟩
  · rcases Nat.lt_or_ge budget log.length with hlt | hge
    · obtain ⟨c, ⟨⟨hsub, hkeep⟩, hsame⟩, heq⟩ := hshort budget hlt
      rw [heq]
      exact ⟨List.length_take_of_le hlt.le, le_refl _, hsub, hkeep, hsame⟩
    · rw [henough budget hge]
      exact ⟨rfl, hge, hres.1.1, hres.1.2, hres.2⟩
  · rcases Nat.lt_or_ge budget log.length with hlt | hge
    · obtain ⟨c, -, heq⟩ := hshort budget hlt
      rw [heq]
      exact iff_of_true rfl hlt
    · rw [henough budget hge]
      exact iff_of_false Bool.false_ne_true (not_lt.mpr hge)
  · rw [henough budget hle, henough _ (le_refl _)]
  · rw [henough _ (le_refl _)]
  · rw [henough _ (le_refl _)]
    rcases Nat.lt_or_ge budget log.length with hlt | hge
    · obtain ⟨c, -, heq⟩ := hshort budget hlt
      rw [heq]
    · rw [henough budget hge, List.take_of_length_le hge]

variable {check : List UInt8 → Bool}

theorem withoutPart_bytes (current : List UInt8) {i : ℕ} (hi : i < current.length) :
    withoutPart current current.length i = current.eraseIdx i := by
  have hpos : 0 < current.length := Nat.zero_lt_of_lt hi
  rw [withoutPart, List.eraseIdx_eq_take_drop_succ]
  simp only [Nat.mul_div_cancel _ hpos]

def Judged (check : List UInt8 → Bool) (current : List UInt8) (parts : ℕ) :
    Round × Oracle (List UInt8) → Prop
  | (.cut, o) => o.exhausted = true
  | (.accepted _, _) => True
  | (.rejected, _) => ∀ part < parts, check (withoutPart current parts part) = false

theorem tryPart_judged (current : List UInt8) (parts part : ℕ) (o : Oracle (List UInt8)) :
    (tryPart check current parts part o).All (Judged check current parts)
      fun _ => check (withoutPart current parts part) = false := by
  simp only [tryPart, Oracle.accepts]
  by_cases hspent : o.used ≥ o.max
  · simp only [if_pos hspent]
    exact (rfl : true = true)
  · simp only [if_neg hspent]
    cases hc : check (withoutPart current parts part) with
    | false => exact (rfl : false = false)
    | true => trivial

theorem tryParts_judged (current : List UInt8) (parts : ℕ) (o : Oracle (List UInt8)) :
    Judged check current parts (tryParts check current parts o) := by
  have hloop := @forRange_rule _ _ (tryPart check current parts)
    (fun part _ => ∀ earlier < part, check (withoutPart current parts earlier) = false)
    (Judged check current parts) parts 0 o (fun earlier h => absurd h (Nat.not_lt_zero earlier)) ?_
  · refine hloop.orElse fun o h => ?_
    rw [Nat.zero_add] at h
    exact h
  intro part o _ _ hearlier
  apply (tryPart_judged current parts part o).imp
  · exact fun _ h => h
  · intro _ hpart earlier hlt
    rcases Nat.lt_succ_iff_lt_or_eq.mp hlt with hlt | rfl
    · exact hearlier earlier hlt
    · exact hpart

theorem search_minimal (current : List UInt8) (granularity : ℕ) (hg : 2 ≤ granularity)
    (o : Oracle (List UInt8)) :
    let (result, o) := search check current granularity hg o
    o.exhausted = true ∨ result.length ≤ 1 ∨ Minimal (check · = true) 0 result := by
  by_cases hlen : current.length ≥ 2
  swap
  · rw [search, dif_neg hlen]
    exact Or.inr (Or.inl (by omega))
  rw [search_eq hlen]
  have hjudged := @tryParts_judged check current (min granularity current.length) o
  have hsound := @tryParts_sound check _ _ (min_le_right granularity current.length) o
  cases htried : tryParts check current (min granularity current.length) o with
  | mk round o' =>
    rw [htried] at hjudged hsound
    cases round with
    | cut => exact Or.inl hjudged
    | accepted candidate =>
      have hshorter : candidate.length < current.length := hsound.2.2
      exact search_minimal candidate _ _ o'
    | rejected =>
      simp only
      by_cases hfine : min granularity current.length ≥ current.length
      · rw [if_pos hfine]
        have hall : min granularity current.length = current.length := by omega
        rw [hall] at hjudged
        refine Or.inr (Or.inr fun i _ hi => ?_)
        have hrejected := hjudged i hi
        rw [withoutPart_bytes current hi] at hrejected
        simp only [hrejected, Bool.false_eq_true, not_false_eq_true]
      · rw [if_neg hfine]
        exact search_minimal current _ _ o'
termination_by (current.length, current.length - granularity)
decreasing_by
  · exact Prod.Lex.left _ _ hshorter
  · exact Prod.Lex.right _ (by omega)

theorem shrinkPayload_minimal_iff {payload : List UInt8} (hpayload : check payload = true)
    {budget : ℕ} (hdone : (shrinkPayload check payload budget).1.budgetExhausted = false) :
    Minimal (check · = true) 0 (shrinkPayload check payload budget).1.payload ↔
      ¬ ((shrinkPayload check payload budget).1.payload.length = 1 ∧ check [] = true) := by
  have hminimal : (shrinkPayload check payload budget).1.payload.length ≤ 1 ∨
      Minimal (check · = true) 0 (shrinkPayload check payload budget).1.payload := by
    rw [shrinkPayload_eq, shrinkRun] at hdone ⊢
    rcases Nat.eq_zero_or_pos budget with rfl | hpos
    · simp [Oracle.accepts] at hdone
    · rw [Oracle.accepts_of_pos check (by simpa [Oracle.room] using hpos), hpayload] at hdone ⊢
      exact (search_minimal _ _ _ _).resolve_left (by simpa using hdone)
  exact minimal_iff_of_short hminimal

theorem shrinkPayload_keeps_accepted {payload : List UInt8} (hpayload : check payload = true)
    (budget : ℕ) : check (shrinkPayload check payload budget).1.payload = true :=
  ((shrinkPayload_contract check payload).1 budget).2.2.2.1 hpayload

theorem shrinkPayload_single {b : UInt8} (hb : check [b] = true) :
    (shrinkPayload check [b] 1).1 = ⟨[b], 1, false, false⟩ := by
  simp [shrinkPayload, Oracle.accepts, hb, search]

theorem shrinkPayload_minimal_cases (check : List UInt8 → Bool) :
    ((∀ payload budget, check payload = true →
        (shrinkPayload check payload budget).1.budgetExhausted = false →
        Minimal (check · = true) 0 (shrinkPayload check payload budget).1.payload) ↔
      (check [] = false ∨ ∀ b, check [b] = false)) ∧
    ∀ payload budget, check payload = true →
      (shrinkPayload check payload budget).1.budgetExhausted = false →
      (Minimal (check · = true) 0 (shrinkPayload check payload budget).1.payload ↔
        ¬ ((shrinkPayload check payload budget).1.payload.length = 1 ∧ check [] = true)) := by
  refine ⟨⟨fun hall => ?_, fun hwhen payload budget hpayload hdone => ?_⟩,
    fun payload budget hpayload hdone => shrinkPayload_minimal_iff hpayload hdone⟩
  · by_contra hnot
    simp only [not_or, not_forall, Bool.not_eq_false] at hnot
    obtain ⟨hempty, b, hb⟩ := hnot
    have hresult := shrinkPayload_single hb
    have hminimal := hall [b] 1 hb (by rw [hresult])
    rw [hresult, minimal_singleton] at hminimal
    exact hminimal hempty
  · rw [shrinkPayload_minimal_iff hpayload hdone]
    rintro ⟨hone, hempty⟩
    obtain ⟨b, hb⟩ := List.length_eq_one_iff.mp hone
    have hkept := shrinkPayload_keeps_accepted hpayload budget
    rw [hb] at hkept
    rcases hwhen with hwhen | hwhen
    · rw [hempty] at hwhen
      contradiction
    · rw [hwhen b] at hkept
      contradiction

theorem single_byte_not_minimal :
    let outcome := (shrinkPayload (fun _ => true) [7] 1).1
    outcome.budgetExhausted = false ∧ outcome.payload = [7] ∧
      ¬ Minimal (fun _ => true = true) 0 outcome.payload := by
  intro outcome
  have hresult : outcome = ⟨[7], 1, false, false⟩ := shrinkPayload_single rfl
  rw [hresult]
  exact ⟨rfl, rfl, fun h => minimal_singleton.mp h rfl⟩

theorem byte_seeker_minimal : ∀ payload budget,
    payload.contains 7 = true →
    (shrinkPayload (fun p => p.contains 7) payload budget).1.budgetExhausted = false →
    Minimal (fun p => p.contains 7 = true) 0
      (shrinkPayload (fun p => p.contains 7) payload budget).1.payload :=
  (shrinkPayload_minimal_cases fun p => p.contains 7).1.mpr (Or.inl rfl)

end CrashLab.Shrink
