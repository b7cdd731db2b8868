import CrashLab.RequestDedup

namespace CrashLab.RequestDedup

open Histories JsonTexts

section Sharing

variable {U S : Type}

def Request.Unsettled (request : Request U S) : Prop := ∀ outcome, request.phase ≠ .settled outcome

def Request.Rejected (request : Request U S) (err : FetchError U S) : Prop := request.phase = .settled (.error err)

def Request.Abandoned (reasons : S → Option ErrorKind) (request : Request U S) : Prop :=
  ∀ caller ∈ request.callers, aborted reasons caller

def AtMostOne (s : State U S) : Prop :=
  ∀ n m request other, s.requests n = some request → s.requests m = some other → request.Unsettled →
    other.Unsettled → request.url = other.url → n = m

/-- A rejection that an abort has caused reaches only callers whose own signal is aborted. -/
def Isolated (s : State U S) : Prop :=
  ∀ n request err signal, s.requests n = some request → request.Rejected err → err.abortedBy = some signal →
    request.Abandoned s.reasons

def Attempt.PassesOn (attempt : Attempt U S) (policy : FetchPolicy) : Prop :=
  ∃ signal kind, attempt.combined = some (.reason signal kind) ∧ ¬(kind = .abort ∧ attempt.deadlinePassed = true) ∧
    ¬(attempt.number < policy.maxAttempts ∧ (kind = .timeout ∨ kind = .network))

/-- An abort that is passed on finds every caller aborted, and nobody else joins the rejection. -/
def Considerate (s : State U S) : Event U S → Prop
  | .aborts n => ∀ request attempt, s.requests n = some request → request.phase = .fetching attempt →
      attempt.PassesOn request.policy → request.Abandoned s.reasons
  | .call url signal _ => ∀ n request err by_, s.inFlightRequests url = some n → s.requests n = some request →
      request.Rejected err → err.abortedBy = some by_ → aborted s.reasons signal
  | _ => True

def Request.Driven (reasons : S → Option ErrorKind) (request : Request U S) (attempt : Attempt U S) : Prop :=
  ∀ err, attempt.combined = some err → err.abortedBy = none ∨
    ∃ signal kind, err = .reason signal kind ∧ request.signal = some signal ∧ reasons signal = some kind

structure State.Sound (s : State U S) : Prop where
  fresh : ∀ n, s.next ≤ n → s.requests n = none
  onFile : ∀ n request, s.requests n = some request → request.Unsettled → s.inFlightRequests request.url = some n
  driven : ∀ n request attempt, s.requests n = some request → request.phase = .fetching attempt →
    request.Driven s.reasons attempt
  timed : ∀ n request, s.requests n = some request → request.timer = true → ¬request.Unsettled

variable {s : State U S} {request : Request U S} {attempt : Attempt U S} {err : FetchError U S}
variable {reasons : S → Option ErrorKind}

theorem State.Sound.atMostOne (h : s.Sound) : AtMostOne s := by
  intro n m request other hn hm hrequest hother hurl
  have hfile := h.onFile n request hn hrequest
  rw [hurl, h.onFile m other hm hother] at hfile
  exact (Option.some.inj hfile).symm

end Sharing

section Failures

variable {U S : Type} {request : Request U S} {attempt : Attempt U S} {err : FetchError U S}
variable {reasons : S → Option ErrorKind}

theorem catchError_abortedBy : (catchError reasons request attempt err).abortedBy =
    if err.kind = .abort ∧ attempt.deadlinePassed = true then none else err.abortedBy := by
  unfold catchError
  by_cases hhttp : err.kind = .http
  · simp [hhttp]
  · by_cases hmalformed : err.kind = .malformed
    · simp [hmalformed]
    · by_cases hdeadline : err.kind = .abort ∧ attempt.deadlinePassed = true
      · rw [if_neg hhttp, if_neg hmalformed, if_pos hdeadline, if_pos hdeadline]
        rfl
      · rw [if_neg hhttp, if_neg hmalformed, if_neg hdeadline, if_neg hdeadline]
        split_ifs
        · rfl
        · rfl

theorem afterFailure_rejected {policy : FetchPolicy} {number : ℕ} {other : FetchError U S}
    (h : afterFailure policy number err = .settled (.error other)) :
    other = err ∧ ¬(number < policy.maxAttempts ∧ isRetryable err = true) := by
  unfold afterFailure at h
  split_ifs at h with hretry
  cases h
  exact ⟨rfl, hretry⟩

theorem Request.fails_own (hphase : request.phase = .fetching attempt) (howned : err.abortedBy = none)
    {other : FetchError U S} (h : (request.fails reasons err).Rejected other) : other.abortedBy = none := by
  unfold Request.Rejected Request.fails at h
  rw [hphase] at h
  rw [(afterFailure_rejected h).1, catchError_abortedBy, howned, ite_self]

theorem Request.aborts_rejected (hphase : request.phase = .fetching attempt) (hdriven : request.Driven reasons attempt) :
    (∃ other signal, (request.aborts reasons).Rejected other ∧ other.abortedBy = some signal) ↔
      attempt.PassesOn request.policy := by
  unfold Request.aborts Request.Rejected
  rw [hphase]
  dsimp only
  cases hcombined : attempt.combined with
  | none =>
    constructor
    · rintro ⟨other, signal, hother, -⟩
      dsimp only at hother
      rw [hphase] at hother
      cases hother
    · rintro ⟨signal, kind, hreason, -⟩
      rw [hcombined] at hreason
      cases hreason
  | some err =>
    dsimp only
    obtain hown | ⟨signal, kind, rfl, hsignal, hkind⟩ := hdriven err hcombined
    · constructor
      · rintro ⟨other, signal, hother, hby⟩
        rw [Request.fails_own hphase hown hother] at hby
        cases hby
      · rintro ⟨signal, kind, hreason, -⟩
        rw [hcombined] at hreason
        cases hreason
        cases hown
    · have haborted : aborted reasons request.signal = true := by
        rw [hsignal]
        exact Option.isSome_iff_exists.mpr ⟨kind, hkind⟩
      have hcaught : ¬(kind = .abort ∧ attempt.deadlinePassed = true) →
          catchError reasons request attempt (.reason signal kind) = .reason signal kind := by
        intro hdeadline
        unfold catchError
        split_ifs with _ _ hreplaced
        · rfl
        · rfl
        · exact absurd hreplaced hdeadline
        · rfl
      have hretryable : isRetryable (.reason signal kind : FetchError U S) = true ↔
          kind = .timeout ∨ kind = .network := by
        unfold isRetryable
        rw [Bool.or_eq_true, decide_eq_true_iff, decide_eq_true_iff]
        rfl
      unfold Request.fails
      rw [hphase]
      dsimp only
      constructor
      · rintro ⟨other, by_, hother, hby⟩
        obtain ⟨rfl, hretry⟩ := afterFailure_rejected hother
        rw [catchError_abortedBy] at hby
        split_ifs at hby with hdeadline
        rw [hcaught hdeadline, hretryable] at hretry
        exact ⟨signal, kind, hcombined, hdeadline, hretry⟩
      · rintro ⟨signal', kind', hreason, hdeadline, hretry⟩
        rw [hcombined] at hreason
        cases hreason
        refine ⟨.reason signal kind, signal, ?_, rfl⟩
        rw [hcaught hdeadline, afterFailure, if_neg fun h => hretry ⟨h.1, hretryable.mp h.2⟩]

end Failures

section Changes

variable {U S : Type} {reasons : S → Option ErrorKind} {request next : Request U S}

structure Advances (reasons : S → Option ErrorKind) (request next : Request U S) : Prop where
  url : next.url = request.url
  unsettled : next.Unsettled → request.Unsettled
  driven : (∀ attempt, request.phase = .fetching attempt → request.Driven reasons attempt) →
    ∀ attempt, next.phase = .fetching attempt → next.Driven reasons attempt
  timed : (request.timer = true → ¬request.Unsettled) → next.timer = true → ¬next.Unsettled

def Discreet (request next : Request U S) : Prop :=
  ∀ err signal, next.Rejected err → err.abortedBy = some signal →
    request.Rejected err ∧ next.callers = request.callers

theorem Request.unsettled_of_fetching {attempt : Attempt U S} (h : request.phase = .fetching attempt) :
    request.Unsettled := by
  intro outcome hsettled
  rw [h] at hsettled
  cases hsettled

theorem Request.not_timed {attempt : Attempt U S} (hphase : request.phase = .fetching attempt)
    (h : request.timer = true → ¬request.Unsettled) (htimer : request.timer = true) : ¬next.Unsettled :=
  absurd (Request.unsettled_of_fetching hphase) (h htimer)

theorem Advances.of_phase (h : next.phase = request.phase) (hurl : next.url = request.url)
    (hsignal : next.signal = request.signal) (htimer : next.timer = true → request.timer = true) :
    Advances reasons request next where
  url := hurl
  unsettled hnext := by
    unfold Request.Unsettled at hnext ⊢
    rwa [h] at hnext
  driven hdriven attempt hphase err hcombined := by
    rw [hsignal]
    exact hdriven attempt (h ▸ hphase) err hcombined
  timed htimed hnext := by
    unfold Request.Unsettled
    rw [h]
    exact htimed (htimer hnext)

theorem Advances.refl : Advances reasons request request := .of_phase rfl rfl rfl id

theorem fails_advances (err : FetchError U S) : Advances reasons request (request.fails reasons err) := by
  unfold Request.fails
  split
  · rename_i attempt hphase
    refine ⟨rfl, fun _ => Request.unsettled_of_fetching hphase, fun _ other hother => ?_, Request.not_timed hphase⟩
    change afterFailure _ _ _ = _ at hother
    unfold afterFailure at hother
    split_ifs at hother
  · exact .refl

theorem aborts_advances : Advances reasons request (request.aborts reasons) := by
  unfold Request.aborts
  split
  · split
    · exact fails_advances _
    · exact .refl
  · exact .refl

theorem responds_advances (status : ℕ) : Advances reasons request (request.responds reasons status) := by
  unfold Request.responds
  split
  · rename_i attempt hphase
    split_ifs
    · exact .refl
    · refine ⟨rfl, fun _ => Request.unsettled_of_fetching hphase, fun hdriven other hother => ?_,
        Request.not_timed hphase⟩
      cases hother
      exact hdriven attempt hphase
    · exact fails_advances _
  · exact .refl

theorem body_advances (json : Json) : Advances reasons request (request.body json) := by
  unfold Request.body
  split
  · rename_i attempt hphase
    split_ifs
    · exact ⟨rfl, fun _ => Request.unsettled_of_fetching hphase, fun _ _ => nofun,
        Request.not_timed hphase⟩
    · exact .refl
  · exact .refl

theorem deadline_advances : Advances reasons request request.deadline := by
  unfold Request.deadline
  split
  · rename_i attempt hphase
    split_ifs
    · exact .refl
    · refine ⟨rfl, fun _ => Request.unsettled_of_fetching hphase, fun hdriven other hother err herr => ?_,
        Request.not_timed hphase⟩
      cases hother
      cases hcombined : attempt.combined with
      | none =>
        rw [hcombined] at herr
        cases herr
        exact .inl rfl
      | some reason =>
        rw [hcombined] at herr
        cases herr
        exact hdriven attempt hphase _ hcombined
  · exact .refl

theorem wakes_advances : Advances reasons request (request.wakes reasons) := by
  unfold Request.wakes
  split
  · rename_i number hphase
    have hunsettled : request.Unsettled := by
      intro outcome hsettled
      rw [hphase] at hsettled
      cases hsettled
    refine ⟨rfl, fun _ => hunsettled, fun _ other hother err herr => ?_, fun h htimer => absurd hunsettled (h htimer)⟩
    · cases hother
      change request.signal.bind (fun signal => (reasons signal).map (.reason signal)) = some err at herr
      rw [Option.bind_eq_some_iff] at herr
      obtain ⟨signal, hsignal, herr⟩ := herr
      rw [Option.map_eq_some_iff] at herr
      obtain ⟨kind, hkind, rfl⟩ := herr
      exact .inr ⟨signal, kind, rfl, hsignal, hkind⟩
  · exact .refl

theorem Discreet.refl (request : Request U S) : Discreet request request := fun _ _ h _ => ⟨h, rfl⟩

theorem Discreet.of_phase (h : next.phase = request.phase) (hcallers : next.callers = request.callers) :
    Discreet request next := by
  intro err signal hrejected hby
  unfold Request.Rejected at hrejected
  rw [h] at hrejected
  exact ⟨hrejected, hcallers⟩

theorem fails_discreet {err : FetchError U S} (h : err.abortedBy = none) :
    Discreet request (request.fails reasons err) := by
  cases hphase : request.phase with
  | fetching attempt =>
    intro other signal hrejected hby
    rw [Request.fails_own hphase h hrejected] at hby
    cases hby
  | sleeping number =>
    unfold Request.fails
    rw [hphase]
    exact .refl request
  | settled outcome =>
    unfold Request.fails
    rw [hphase]
    exact .refl request

theorem responds_discreet (status : ℕ) : Discreet request (request.responds reasons status) := by
  unfold Request.responds
  split
  · split_ifs
    · exact .refl request
    · exact fun _ _ hrejected _ => by cases hrejected
    · exact fails_discreet rfl
  · exact .refl request

theorem body_discreet (json : Json) : Discreet request (request.body json) := by
  unfold Request.body
  split
  · split_ifs
    · exact fun _ _ hrejected _ => by cases hrejected
    · exact .refl request
  · exact .refl request

theorem deadline_discreet : Discreet request request.deadline := by
  unfold Request.deadline
  split
  · split_ifs
    · exact .refl request
    · exact fun _ _ hrejected _ => by cases hrejected
  · exact .refl request

theorem wakes_discreet : Discreet request (request.wakes reasons) := by
  unfold Request.wakes
  split
  · exact fun _ _ hrejected _ => by cases hrejected
  · exact .refl request

end Changes

end CrashLab.RequestDedup
