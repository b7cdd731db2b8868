import CrashLab.CampaignTurns

namespace CrashLab.Campaigns

open JsStrings JsonTexts Admission Idempotency UsageLedger KeyedLists Histories

variable {ι : Type} [DecidableEq ι] {env : Deployment} {requests : ι → CampaignRequest}

namespace RouteState

def successOf (s : RouteState ι) (i : ι) : Option CampaignResponse :=
  match s.stages i with
  | .answered reply => reply.success
  | _ => none

variable (requests) in
/-- The record under a key has not expired when a request with the key takes its turn. -/
def WithinTtl (key : JsString) (s : RouteState ι) (turn : Turn ι) : Prop :=
  keyOf (requests turn.request) = some key → ∀ record ∈ s.recordUnder key, turn.now < record.expiresAt

omit [DecidableEq ι] in
theorem liveAt_of_lt {store : InMemoryIdempotencyStore ι CampaignResponse} {now : ℕ} {id : JsString}
    (h : ∀ record ∈ store.records id, now < record.expiresAt) : store.liveAt now id = store.records id := by
  unfold InMemoryIdempotencyStore.liveAt
  cases hrecord : store.records id with
  | none => rfl
  | some record => simp [Option.filter, h record hrecord]

theorem recordUnder_step {s s' : RouteState ι} {turn : Turn ι} {key : JsString}
    (hwithin : WithinTtl requests key s turn) (houtcome : Outcome env requests s turn s')
    {record : IdempotencyRecord ι CampaignResponse} (h : s.recordUnder key = some record) :
    s'.recordUnder key = some record := by
  cases houtcome with
  | idle _ _ => exact h
  | fail _ _ _ => exact h
  | authorise _ _ _ _ => exact h
  | replay _ _ _ => exact h
  | finish _ _ => exact h
  | lookup key' hkey _ =>
    rw [recordUnder, setStage_store, get_store]
    split_ifs with heq
    · rw [liveAt_of_lt (hwithin (heq ▸ hkey))]
      exact h
    · exact h
  | store key' draft hkey _ _ =>
    rw [recordUnder, setStage_store, put_store]
    split_ifs with heq
    · subst heq
      have hlive : s.store.liveAt turn.now (storageKey idempotencyScope key) = some record :=
        (liveAt_of_lt (hwithin hkey)).trans h
      rw [put_winner, hlive, Option.getD_some]
    · exact h

section Invariant

variable (env requests)

def Consistent (stored : Option (IdempotencyRecord ι CampaignResponse)) (i : ι) : Stage ι → Prop
  | .lookingUp (some record) => stored = some record
  | .storing draft winner =>
    stored = some winner ∧ (winner.builtBy = i → winner.response = draft.response ∧
      winner.fingerprint = fingerprintPayload env.sha256 (payloadOf (requests i)))
  | .answered reply =>
    ∀ response, reply.success = some response → ∃ record, stored = some record ∧ record.response = response ∧
      record.fingerprint = fingerprintPayload env.sha256 (payloadOf (requests i))
  | _ => True

structure OnePerKey (key : JsString) (s : RouteState ι) : Prop where
  stages : ∀ i, keyOf (requests i) = some key → Consistent env requests (s.recordUnder key) i (s.stages i)
  built : Decided key s
  answered : s.Answered
  owned : ∀ creation ∈ s.creations, keyOf (requests creation.request) = some key →
    ∃ record, s.recordUnder key = some record ∧ record.builtBy = creation.request
  once : UniqueKeys Creation.request s.creations

variable {env requests}

omit [DecidableEq ι] in
theorem Consistent.mono {stored stored' : Option (IdempotencyRecord ι CampaignResponse)} {i : ι} {stage : Stage ι}
    (hmono : ∀ record, stored = some record → stored' = some record)
    (h : Consistent env requests stored i stage) : Consistent env requests stored' i stage := by
  cases stage with
  | received => trivial
  | lookingUp existing =>
    cases existing with
    | none => trivial
    | some record => exact hmono record h
  | authorising _ _ => trivial
  | storing draft winner => exact ⟨hmono winner h.1, h.2⟩
  | answered reply =>
    intro response hresponse
    obtain ⟨record, hrecord, hrest⟩ := h response hresponse
    exact ⟨record, hmono record hrecord, hrest⟩

theorem OnePerKey.stage {key : JsString} {s s' : RouteState ι} {turn : Turn ι} (h : OnePerKey env requests key s)
    (hwithin : WithinTtl requests key s turn) (houtcome : Outcome env requests s turn s')
    (hkeyed : keyOf (requests turn.request) = some key) :
    Consistent env requests (s'.recordUnder key) turn.request (s'.stages turn.request) := by
  have hbefore := h.stages turn.request hkeyed
  have hmono : ∀ record, s.recordUnder key = some record → s'.recordUnder key = some record :=
    fun _ => recordUnder_step hwithin houtcome
  cases houtcome with
  | idle _ _ => exact hbefore
  | fail reply hreply _ =>
    rw [answer, setStage_self]
    intro response hresponse
    rw [hreply] at hresponse
    cases hresponse
  | authorise _ _ _ _ =>
    rw [setStage_self]
    trivial
  | lookup key' hkey _ =>
    rw [hkeyed, Option.some.injEq] at hkey
    subst hkey
    rw [setStage_self, recordUnder, setStage_store, get_store, if_pos rfl, InMemoryIdempotencyStore.get,
      InMemoryIdempotencyStore.live_fst]
    cases s.store.liveAt turn.now (storageKey idempotencyScope key) with
    | none => trivial
    | some record => rfl
  | replay record hfingerprint hstage =>
    have hrecord : s.recordUnder key = some record := by
      rcases hstage with hstage | ⟨-, draft, hstage⟩
      · rw [hstage] at hbefore
        exact hbefore
      · rw [hstage] at hbefore
        exact hbefore.1
    rw [answer, setStage_self]
    intro response hresponse
    cases hresponse
    exact ⟨record, hrecord, rfl, hfingerprint⟩
  | store key' draft hkey hstage _ =>
    rw [hkeyed, Option.some.injEq] at hkey
    subst hkey
    rw [setStage_self, recordUnder, setStage_store, put_store, if_pos rfl]
    refine ⟨rfl, fun hbuilt => ?_⟩
    -- what stood there before was built by a request that has decided
    cases hstored : s.recordUnder key with
    | none =>
      rw [put_winner, liveAt_of_none hstored, Option.getD_none]
      exact ⟨rfl, rfl⟩
    | some record =>
      have hafter := hmono record hstored
      rw [recordUnder, setStage_store, put_store, if_pos rfl, Option.some.injEq] at hafter
      rw [hafter] at hbuilt
      have := h.built record hstored
      rw [hbuilt] at this
      exact absurd hstage.undecided this
  | finish draft hstage =>
    rcases hstage with ⟨hnone, -⟩ | ⟨winner, hbuilt, hstage⟩
    · rw [hkeyed] at hnone
      cases hnone
    · rw [hstage] at hbefore
      obtain ⟨hstored, hown⟩ := hbefore
      obtain ⟨hresponse, hfingerprint⟩ := hown hbuilt
      have hself : (s.finish env requests turn draft).stages turn.request =
        .answered (.created draft.response (keyOf (requests turn.request))) := Function.update_self ..
      rw [hself]
      intro response hsuccess
      cases hsuccess
      exact ⟨winner, hstored, hresponse, hfingerprint⟩

theorem OnePerKey.step {key : JsString} (s : RouteState ι) (turn : Turn ι) (h : OnePerKey env requests key s)
    (hwithin : WithinTtl requests key s turn) : OnePerKey env requests key (s.step env requests turn) := by
  have houtcome : Outcome env requests s turn (s.step env requests turn) := step_outcome s turn
  generalize s.step env requests turn = s' at houtcome
  have hmono : ∀ record, s.recordUnder key = some record → s'.recordUnder key = some record :=
    fun _ => recordUnder_step hwithin houtcome
  refine ⟨fun i hi => ?_, h.built.step houtcome, ?_, ?_, ?_⟩
  · by_cases hself : i = turn.request
    · subst hself
      exact h.stage hwithin houtcome hi
    · rw [stages_of_ne houtcome hself]
      exact (h.stages i hi).mono hmono
  · exact h.answered.step houtcome
  · intro creation hcreation hkeyed
    rcases mem_creations houtcome hcreation with hold | ⟨hself, hfinish⟩
    · obtain ⟨record, hrecord, hbuilt⟩ := h.owned creation hold hkeyed
      exact ⟨record, hmono record hrecord, hbuilt⟩
    · obtain ⟨winner, hbuilt, hstage⟩ := hfinish.resolve_left fun hnone => by simp [← hself, hkeyed] at hnone
      have hstored := h.stages turn.request (hself ▸ hkeyed)
      rw [hstage] at hstored
      exact ⟨winner, hmono winner hstored.1, hbuilt.trans hself.symm⟩
  · exact creations_once houtcome h.answered h.once

def opened (store : InMemoryIdempotencyStore ι CampaignResponse) (ledger : CapacityLedger (LeaseKey ι))
    (campaigns : List CampaignRecord) : RouteState ι := { store, ledger, campaigns }

omit [DecidableEq ι] in
theorem OnePerKey.start {key : JsString} {store : InMemoryIdempotencyStore ι CampaignResponse}
    (hkey : store.records (storageKey idempotencyScope key) = none) (ledger : CapacityLedger (LeaseKey ι))
    (campaigns : List CampaignRecord) : OnePerKey env requests key (opened store ledger campaigns) where
  stages _ _ := trivial
  built record hrecord := by
    rw [show (opened store ledger campaigns).recordUnder key = none from hkey] at hrecord
    cases hrecord
  answered := by simp [Answered, opened]
  owned := by simp [opened]
  once := List.nodup_nil

end Invariant

/-- What a key has led to in a run that started from `start`. -/
structure CreatedOnce (env : Deployment) (requests : ι → CampaignRequest) (key : JsString)
    (start s : RouteState ι) : Prop where
  /-- The ledger and the registry have taken in the campaigns of the log, one after the other. -/
  log : s.ledger = admitAll start.ledger s.creations ∧ s.campaigns = registerAll env requests start.campaigns s.creations
  atMostOne : (s.creations.filter fun creation => keyOf (requests creation.request) = some key).length ≤ 1
  sameCampaign : ∀ i, keyOf (requests i) = some key → ∀ response ∈ s.successOf i,
    (∀ j, keyOf (requests j) = some key → ∀ response' ∈ s.successOf j, response' = response) ∧
      ∀ creation ∈ s.creations, keyOf (requests creation.request) = some key → creation.draft.response = response
  mismatch : ∀ record ∈ s.recordUnder key, ∀ i, keyOf (requests i) = some key →
    fingerprintPayload env.sha256 (payloadOf (requests i)) ≠ record.fingerprint →
      s.successOf i = none ∧ ∀ creation ∈ s.creations, creation.request ≠ i

omit [DecidableEq ι] in
theorem OnePerKey.success {key : JsString} {s : RouteState ι} (h : OnePerKey env requests key s) {i : ι}
    (hkeyed : keyOf (requests i) = some key) {response : CampaignResponse} (hresponse : response ∈ s.successOf i) :
    ∃ record, s.recordUnder key = some record ∧ record.response = response ∧
      record.fingerprint = fingerprintPayload env.sha256 (payloadOf (requests i)) := by
  have hstage := h.stages i hkeyed
  unfold successOf at hresponse
  cases hanswered : s.stages i with
  | answered reply =>
    rw [hanswered] at hstage hresponse
    exact hstage response hresponse
  | received => simp [hanswered] at hresponse
  | lookingUp _ => simp [hanswered] at hresponse
  | authorising _ _ => simp [hanswered] at hresponse
  | storing _ _ => simp [hanswered] at hresponse

omit [DecidableEq ι] in
theorem successOf_creation {s : RouteState ι} (h : s.Answered) {creation : Creation ι}
    (hcreation : creation ∈ s.creations) : s.successOf creation.request = some creation.draft.response := by
  obtain ⟨key, hstage⟩ := h creation hcreation
  rw [successOf, hstage]
  rfl

theorem OnePerKey.atMostOne {key : JsString} {s : RouteState ι} (h : OnePerKey env requests key s) :
    (s.creations.filter fun creation => keyOf (requests creation.request) = some key).length ≤ 1 := by
  rw [← List.countP_eq_length_filter]
  cases hrecord : s.recordUnder key with
  | none =>
    have hzero : (s.creations.countP fun creation => keyOf (requests creation.request) = some key) = 0 := by
      rw [List.countP_eq_zero]
      intro creation hcreation hkeyed
      obtain ⟨record, hstored, -⟩ := h.owned creation hcreation (of_decide_eq_true hkeyed)
      rw [hrecord] at hstored
      cases hstored
    rw [hzero]
    exact Nat.zero_le 1
  | some record =>
    apply (List.countP_mono_left ?_).trans (h.once.occurrences_le_one record.builtBy)
    intro creation hcreation hkeyed
    obtain ⟨stored, hstored, hbuilt⟩ := h.owned creation hcreation (of_decide_eq_true hkeyed)
    rw [hrecord, Option.some.injEq] at hstored
    rw [hstored, hbuilt, decide_eq_true_eq]

theorem one_campaign_per_key (env : Deployment) (requests : ι → CampaignRequest) (key : JsString)
    (store : InMemoryIdempotencyStore ι CampaignResponse) (ledger : CapacityLedger (LeaseKey ι))
    (campaigns : List CampaignRecord) (turns : List (Turn ι))
    (hkey : store.records (storageKey idempotencyScope key) = none)
    (hwithin : EachStep (step env requests) (WithinTtl requests key) (opened store ledger campaigns) turns) :
    CreatedOnce env requests key (opened store ledger campaigns)
      (run (step env requests) (opened store ledger campaigns) turns) := by
  have h : OnePerKey env requests key (run (step env requests) (opened store ledger campaigns) turns) :=
    hwithin.invariant OnePerKey.step (OnePerKey.start hkey ledger campaigns)
  obtain ⟨creations, hlog, hledger, hcampaigns⟩ :=
    @creations_run _ _ env requests (opened store ledger campaigns) turns
  rw [show (opened store ledger campaigns).creations = [] from rfl, List.nil_append] at hlog
  generalize run (step env requests) (opened store ledger campaigns) turns = s at *
  refine ⟨⟨hlog ▸ hledger, hlog ▸ hcampaigns⟩, h.atMostOne, ?_, ?_⟩
  · intro i hi response hresponse
    obtain ⟨record, hrecord, hsame, -⟩ := h.success hi hresponse
    have hall : ∀ j, keyOf (requests j) = some key → ∀ response' ∈ s.successOf j, response' = response := by
      intro j hj response' hresponse'
      obtain ⟨record', hrecord', hsame', -⟩ := h.success hj hresponse'
      rw [hrecord, Option.some.injEq] at hrecord'
      rw [← hsame, ← hsame', hrecord']
    exact ⟨hall, fun creation hcreation hkeyed => hall _ hkeyed _ (successOf_creation h.answered hcreation)⟩
  · intro record hrecord i hi hdiffers
    have hnone : s.successOf i = none := by
      rw [Option.eq_none_iff_forall_not_mem]
      intro response hresponse
      obtain ⟨record', hrecord', -, hfingerprint⟩ := h.success hi hresponse
      rw [Option.mem_def.mp hrecord, Option.some.injEq] at hrecord'
      exact hdiffers (hrecord' ▸ hfingerprint).symm
    refine ⟨hnone, fun creation hcreation heq => ?_⟩
    rw [← heq, successOf_creation h.answered hcreation] at hnone
    cases hnone

theorem withinTtl_of_window {key : JsString} {store : InMemoryIdempotencyStore ι CampaignResponse}
    (hkey : store.records (storageKey idempotencyScope key) = none) (ledger : CapacityLedger (LeaseKey ι))
    (campaigns : List CampaignRecord) {turns : List (Turn ι)} (from_ : ℕ)
    (h : ∀ turn ∈ turns, from_ ≤ turn.now ∧ turn.now < from_ + idempotencyTtlSeconds * 1000) :
    EachStep (step env requests) (WithinTtl requests key) (opened store ledger campaigns) turns := by
  let Late : RouteState ι → Prop := fun s =>
    ∀ record, s.recordUnder key = some record → from_ + idempotencyTtlSeconds * 1000 ≤ record.expiresAt
  have hstart : Late (opened store ledger campaigns) := by
    intro record hrecord
    rw [show (opened store ledger campaigns).recordUnder key = none from hkey] at hrecord
    cases hrecord
  refine (EachStep.of_forall h (opened store ledger campaigns)).imp (I := Late) ?_ ?_ hstart
  · intro s turn hlate hnow record hrecord
    rcases recordUnder_origin (step_outcome s turn) hrecord with hold | ⟨draft, rfl, -⟩
    · exact hlate record hold
    · exact Nat.add_le_add_right hnow.1 _
  · intro s turn hlate hnow _ record hrecord
    exact hnow.2.trans_le (hlate record hrecord)

section Samples

def sampleDeployment : Deployment := { sha256 := id, dateParse := fun _ => none }

def racingRequests (_ : Bool) : CampaignRequest :=
  { principal := "alice", idempotencyKey := some (ofString "k"), body := .ok (.object []) }

def racingTurns : List (Turn Bool) :=
  [⟨false, 5, [], false⟩, ⟨true, 6, [], false⟩, ⟨true, 7, [], false⟩, ⟨false, 8, [], false⟩, ⟨false, 9, [], false⟩,
    ⟨true, 9, [], false⟩]

theorem racing_requests_create_once :
    CreatedOnce sampleDeployment racingRequests (ofString "k") (opened {} {} [])
      (run (step sampleDeployment racingRequests) (opened {} {} []) racingTurns) :=
  one_campaign_per_key sampleDeployment racingRequests (ofString "k") {} {} [] racingTurns rfl
    (withinTtl_of_window rfl {} [] 5 (by decide))

end Samples

end RouteState

end CrashLab.Campaigns
