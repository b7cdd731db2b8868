import CrashLab.CampaignRoute
import CrashLab.Histories

namespace CrashLab.Campaigns

open JsStrings JsonTexts Admission Idempotency UsageLedger CampaignQuotas KeyedLists

variable {ι : Type} [DecidableEq ι] (env : Deployment) (requests : ι → CampaignRequest)

namespace RouteState

@[simp] theorem setStage_store (s : RouteState ι) (i : ι) (stage : Stage ι) : (s.setStage i stage).store = s.store := rfl

@[simp] theorem setStage_ledger (s : RouteState ι) (i : ι) (stage : Stage ι) :
    (s.setStage i stage).ledger = s.ledger := rfl

@[simp] theorem setStage_creations (s : RouteState ι) (i : ι) (stage : Stage ι) :
    (s.setStage i stage).creations = s.creations := rfl

@[simp] theorem setStage_self (s : RouteState ι) (i : ι) (stage : Stage ι) : (s.setStage i stage).stages i = stage :=
  Function.update_self ..

theorem setStage_of_ne (s : RouteState ι) {i j : ι} (stage : Stage ι) (h : j ≠ i) :
    (s.setStage i stage).stages j = s.stages j := Function.update_of_ne h ..

end RouteState

def Stage.Undecided : Stage ι → Prop
  | .received => True
  | .lookingUp none => True
  | .authorising _ _ => True
  | _ => False

omit [DecidableEq ι] in
theorem Stage.Undecided.ne_answered {stage : Stage ι} (h : stage.Undecided) (reply : Reply) :
    stage ≠ .answered reply := by
  rintro rfl
  exact h

def recordOf (turn : Turn ι) (key : JsString) (draft : Draft) : IdempotencyRecord ι CampaignResponse :=
  buildIdempotencyRecord env.sha256 turn.request idempotencyScope key (payloadOf (requests turn.request))
    (draft.response.field "id") draft.response turn.now

def reservation (s : RouteState ι) (turn : Turn ι) : Option Draft :=
  match deriveCampaignRequest (payloadOf (requests turn.request)),
    parseOverrideReason (requests turn.request).quotaOverride with
  | .ok resources, .ok _ =>
    if evaluateCampaignAdmission resources env.limits (s.ledger.usage turn.now resources.scope) env.windows
        turn.now = .ok then
      some (RouteState.draftFor requests turn resources turn.now false)
    else none
  | _, _ => none

def Reserved (s : RouteState ι) (turn : Turn ι) (draft : Draft) : Prop :=
  reservation env requests s turn = some draft ∨
    ∃ resources checkedAt, s.stages turn.request = .authorising resources checkedAt

def Stage.builds (keyed : Bool) : Stage ι → Bool
  | .received => !keyed
  | .lookingUp none => true
  | .authorising _ _ => true
  | _ => false

def Builds (s : RouteState ι) (turn : Turn ι) : Prop :=
  (s.stages turn.request).builds (keyOf (requests turn.request)).isSome = true

omit [DecidableEq ι] in
theorem Builds.undecided {requests : ι → CampaignRequest} {s : RouteState ι} {turn : Turn ι}
    (h : Builds requests s turn) : (s.stages turn.request).Undecided := by
  unfold Builds at h
  cases hstage : s.stages turn.request with
  | received => trivial
  | lookingUp existing =>
    cases existing with
    | none => trivial
    | some record => simp [hstage, Stage.builds] at h
  | authorising _ _ => trivial
  | storing _ _ => simp [hstage, Stage.builds] at h
  | answered _ => simp [hstage, Stage.builds] at h

inductive Outcome (s : RouteState ι) (turn : Turn ι) : RouteState ι → Prop
  | idle (reply : Reply) (hstage : s.stages turn.request = .answered reply) : Outcome s turn s
  | fail (reply : Reply) (hreply : reply.success = none) (hopen : ∀ reply, s.stages turn.request ≠ .answered reply) :
      Outcome s turn (s.answer turn.request reply)
  | lookup (key : JsString) (hkey : keyOf (requests turn.request) = some key)
      (hstage : s.stages turn.request = .received) :
      Outcome s turn ({ s with store := (s.store.get turn.now idempotencyScope key).2 }.setStage turn.request
        (.lookingUp (s.store.get turn.now idempotencyScope key).1))
  | authorise (resources : CampaignResourceRequest) (reason : JsString)
      (hreason : parseOverrideReason (requests turn.request).quotaOverride = .ok (some reason))
      (hstage : (s.stages turn.request).Undecided) :
      Outcome s turn (s.setStage turn.request (.authorising resources turn.now))
  | replay (record : IdempotencyRecord ι CampaignResponse)
      (hfingerprint : record.fingerprint = fingerprintPayload env.sha256 (payloadOf (requests turn.request)))
      (hstage : s.stages turn.request = .lookingUp (some record) ∨
        record.builtBy ≠ turn.request ∧ ∃ draft, s.stages turn.request = .storing draft record) :
      Outcome s turn (s.answer turn.request (.replayed record.response ((keyOf (requests turn.request)).getD [])))
  | store (key : JsString) (draft : Draft) (hkey : keyOf (requests turn.request) = some key)
      (hstage : Builds requests s turn) (hreserved : Reserved env requests s turn draft) :
      Outcome s turn
        ({ s with store := (s.store.putIfAbsent turn.now (recordOf env requests turn key draft)).2 }.setStage
          turn.request (.storing draft (s.store.putIfAbsent turn.now (recordOf env requests turn key draft)).1))
  | finish (draft : Draft)
      (hstage : keyOf (requests turn.request) = none ∧ Builds requests s turn ∧
          Reserved env requests s turn draft ∨
        ∃ winner, winner.builtBy = turn.request ∧ s.stages turn.request = .storing draft winner) :
      Outcome s turn (s.finish env requests turn draft)

namespace RouteState

variable {env requests}

theorem outcome_create {s : RouteState ι} {turn : Turn ι} {resources : CampaignResourceRequest} {createdAt : ℕ}
    {quotaOverride : Bool} (hstage : Builds requests s turn)
    (hreserved : Reserved env requests s turn (draftFor requests turn resources createdAt quotaOverride)) :
    Outcome env requests s turn (s.create env requests turn resources createdAt quotaOverride) := by
  unfold create
  dsimp only
  cases hkey : keyOf (requests turn.request) with
  | none => exact .finish _ (.inl ⟨hkey, hstage, hreserved⟩)
  | some key => exact .store key _ hkey hstage hreserved

theorem outcome_refuse {s : RouteState ι} {turn : Turn ι} (resources : CampaignResourceRequest)
    {reason : Option JsString} {reply : Reply} (hreply : reply.success = none)
    (hreason : parseOverrideReason (requests turn.request).quotaOverride = .ok reason)
    (hstage : (s.stages turn.request).Undecided) :
    Outcome env requests s turn (s.refuse turn resources reason reply) := by
  cases reason with
  | none => exact .fail reply hreply hstage.ne_answered
  | some reason => exact .authorise resources reason hreason hstage

theorem outcome_admission {s : RouteState ι} {turn : Turn ι} (hstage : Builds requests s turn) :
    Outcome env requests s turn (s.admission env requests turn) := by
  unfold admission
  dsimp only
  cases hderived : deriveCampaignRequest (payloadOf (requests turn.request)) with
  | error error => exact .fail _ rfl hstage.undecided.ne_answered
  | ok resources =>
    dsimp only
    cases hreason : parseOverrideReason (requests turn.request).quotaOverride with
    | error error => exact .fail _ rfl hstage.undecided.ne_answered
    | ok reason =>
      dsimp only
      cases hadmission : evaluateCampaignAdmission resources env.limits
        (s.ledger.usage turn.now resources.scope) env.windows turn.now with
      | ok =>
        apply outcome_create hstage (.inl _)
        rw [reservation, hderived, hreason]
        exact if_pos hadmission
      | window retryAfterSeconds => exact outcome_refuse resources rfl hreason hstage.undecided
      | quota violation retryAfterSeconds => exact outcome_refuse resources rfl hreason hstage.undecided

theorem outcome_receive {s : RouteState ι} {turn : Turn ι} (hstage : s.stages turn.request = .received) :
    Outcome env requests s turn (s.receive env requests turn) := by
  have hundecided : (s.stages turn.request).Undecided := by
    rw [hstage]
    exact trivial
  unfold receive
  dsimp only
  cases hparsed : parseIdempotencyKey (requests turn.request).idempotencyKey with
  | error error => exact .fail _ rfl hundecided.ne_answered
  | ok key =>
    cases hbody : (requests turn.request).body with
    | error error => cases key <;> exact .fail _ rfl hundecided.ne_answered
    | ok body =>
      cases key with
      | none =>
        have hkey : keyOf (requests turn.request) = none := by rw [keyOf, hparsed]
        apply outcome_admission
        rw [Builds, hstage, hkey]
        rfl
      | some key =>
        have hkey : keyOf (requests turn.request) = some key := by rw [keyOf, hparsed]
        exact .lookup key hkey hstage

theorem outcome_replayOrReject {s : RouteState ι} {turn : Turn ι} {record : IdempotencyRecord ι CampaignResponse}
    (hstage : s.stages turn.request = .lookingUp (some record) ∨
      record.builtBy ≠ turn.request ∧ ∃ draft, s.stages turn.request = .storing draft record) :
    Outcome env requests s turn (s.replayOrReject env requests turn.request record) := by
  unfold replayOrReject
  split_ifs with hfingerprint
  · apply Outcome.fail _ rfl
    rcases hstage with hstage | ⟨-, draft, hstage⟩ <;> simp [hstage]
  · exact .replay record (not_not.mp hfingerprint) hstage

theorem step_outcome (s : RouteState ι) (turn : Turn ι) :
    Outcome env requests s turn (s.step env requests turn) := by
  unfold step
  cases hstage : s.stages turn.request with
  | received => exact outcome_receive hstage
  | lookingUp existing =>
    cases existing with
    | none =>
      apply outcome_admission
      rw [Builds, hstage]
      rfl
    | some record => exact outcome_replayOrReject (.inl hstage)
  | authorising resources checkedAt =>
    have hundecided : (s.stages turn.request).Undecided := by
      rw [hstage]
      exact trivial
    dsimp only
    split_ifs
    · have hbuilds : Builds requests s turn := by
        rw [Builds, hstage]
        rfl
      exact outcome_create hbuilds (.inr ⟨resources, checkedAt, hstage⟩)
    · exact .fail _ rfl hundecided.ne_answered
  | storing draft winner =>
    dsimp only
    split_ifs with hbuilt
    · exact outcome_replayOrReject (.inr ⟨hbuilt, draft, hstage⟩)
    · exact .finish draft (.inr ⟨winner, not_not.mp hbuilt, hstage⟩)
  | answered reply => exact .idle reply hstage

section Frames

theorem stages_of_ne {s s' : RouteState ι} {turn : Turn ι} (houtcome : Outcome env requests s turn s') {j : ι}
    (hj : j ≠ turn.request) : s'.stages j = s.stages j := by
  cases houtcome with
  | idle _ _ => rfl
  | fail _ _ _ => exact setStage_of_ne s _ hj
  | authorise _ _ _ _ => exact setStage_of_ne s _ hj
  | lookup _ _ _ => exact setStage_of_ne _ _ hj
  | replay _ _ _ => exact setStage_of_ne s _ hj
  | store _ _ _ _ _ => exact setStage_of_ne _ _ hj
  | finish _ _ => exact Function.update_of_ne hj ..

theorem answered_step {s s' : RouteState ι} {turn : Turn ι} (houtcome : Outcome env requests s turn s') {i : ι}
    {reply : Reply} (h : s.stages i = .answered reply) : s'.stages i = .answered reply := by
  by_cases hi : i = turn.request
  · subst hi
    cases houtcome with
    | idle _ _ => exact h
    | fail _ _ hopen => exact absurd h (hopen reply)
    | authorise _ _ _ hstage => exact absurd h (hstage.ne_answered reply)
    | lookup _ _ hstage => simp [h] at hstage
    | replay _ _ hstage => simp [h] at hstage
    | store _ _ _ hstage _ => exact absurd h (hstage.undecided.ne_answered reply)
    | finish _ hstage =>
      rcases hstage with ⟨-, hstage, -⟩ | ⟨_, -, hstage⟩
      · exact absurd h (hstage.undecided.ne_answered reply)
      · simp [h] at hstage
  · rw [stages_of_ne houtcome hi]
    exact h

theorem decided_step {s s' : RouteState ι} {turn : Turn ι} (houtcome : Outcome env requests s turn s') {i : ι}
    (h : ¬(s.stages i).Undecided) : ¬(s'.stages i).Undecided := by
  by_cases hi : i = turn.request
  · subst hi
    cases houtcome with
    | idle _ _ => exact h
    | fail _ _ _ => rw [answer, setStage_self]; exact id
    | authorise _ _ _ hstage => exact absurd hstage h
    | lookup _ _ hstage =>
      rw [hstage] at h
      exact absurd trivial h
    | replay _ _ _ => rw [answer, setStage_self]; exact id
    | store _ _ _ hstage _ => exact absurd hstage.undecided h
    | finish draft _ =>
      have hself : (s.finish env requests turn draft).stages turn.request =
        .answered (.created draft.response (keyOf (requests turn.request))) := Function.update_self ..
      rw [hself]
      exact id
  · rw [stages_of_ne houtcome hi]
    exact h

end Frames

section Records

def recordUnder (s : RouteState ι) (key : JsString) : Option (IdempotencyRecord ι CampaignResponse) :=
  s.store.records (storageKey idempotencyScope key)

omit [DecidableEq ι] in
theorem get_store (s : RouteState ι) (now : ℕ) (key key' : JsString) :
    (s.store.get now idempotencyScope key').2.records (storageKey idempotencyScope key) =
      if key = key' then s.store.liveAt now (storageKey idempotencyScope key) else s.recordUnder key := by
  rw [InMemoryIdempotencyStore.get, InMemoryIdempotencyStore.live_records, Function.update_apply]
  simp only [(storageKey_injective _).eq_iff]
  split_ifs with h
  · rw [h]
  · rfl

omit [DecidableEq ι] in
theorem put_store (s : RouteState ι) (turn : Turn ι) (key key' : JsString) (draft : Draft) :
    (s.store.putIfAbsent turn.now (recordOf env requests turn key' draft)).2.records
        (storageKey idempotencyScope key) =
      if key = key' then some (s.store.putIfAbsent turn.now (recordOf env requests turn key' draft)).1
      else s.recordUnder key := by
  obtain ⟨hfst, hsnd⟩ := s.store.putIfAbsent_spec turn.now (recordOf env requests turn key' draft)
  have hid : storageKey (recordOf env requests turn key' draft).scope (recordOf env requests turn key' draft).key =
    storageKey idempotencyScope key' := rfl
  rw [hsnd, hfst, Function.update_apply, hid]
  simp only [(storageKey_injective _).eq_iff]
  rfl

omit [DecidableEq ι] in
theorem put_winner (s : RouteState ι) (turn : Turn ι) (key : JsString) (draft : Draft) :
    (s.store.putIfAbsent turn.now (recordOf env requests turn key draft)).1 =
      (s.store.liveAt turn.now (storageKey idempotencyScope key)).getD (recordOf env requests turn key draft) :=
  (s.store.putIfAbsent_spec turn.now _).1

omit [DecidableEq ι] in
theorem liveAt_of_none {s : RouteState ι} {key : JsString} (h : s.recordUnder key = none) (now : ℕ) :
    s.store.liveAt now (storageKey idempotencyScope key) = none := by
  rw [InMemoryIdempotencyStore.liveAt, show s.store.records _ = none from h, Option.filter_none]

omit [DecidableEq ι] in
theorem recordUnder_of_liveAt {s : RouteState ι} {key : JsString} {now : ℕ}
    {record : IdempotencyRecord ι CampaignResponse}
    (h : s.store.liveAt now (storageKey idempotencyScope key) = some record) : s.recordUnder key = some record := by
  rw [InMemoryIdempotencyStore.liveAt, Option.filter_eq_some_iff] at h
  exact h.1

theorem recordUnder_origin {s s' : RouteState ι} {turn : Turn ι} {key : JsString}
    (houtcome : Outcome env requests s turn s') {record : IdempotencyRecord ι CampaignResponse}
    (h : s'.recordUnder key = some record) :
    s.recordUnder key = some record ∨
      ∃ draft, record = recordOf env requests turn key draft ∧ s'.stages turn.request = .storing draft record := by
  cases houtcome with
  | idle _ _ => exact .inl h
  | fail _ _ _ => exact .inl h
  | authorise _ _ _ _ => exact .inl h
  | replay _ _ _ => exact .inl h
  | finish _ _ => exact .inl h
  | lookup key' _ _ =>
    rw [recordUnder, setStage_store, get_store] at h
    split_ifs at h
    · exact .inl (recordUnder_of_liveAt h)
    · exact .inl h
  | store key' draft _ _ _ =>
    rw [recordUnder, setStage_store, put_store] at h
    split_ifs at h with heq
    · subst heq
      rw [put_winner, Option.some.injEq] at h
      cases hlive : s.store.liveAt turn.now (storageKey idempotencyScope key) with
      | some existing =>
        rw [hlive, Option.getD_some] at h
        exact .inl (h ▸ recordUnder_of_liveAt hlive)
      | none =>
        rw [hlive, Option.getD_none] at h
        refine .inr ⟨draft, h.symm, ?_⟩
        rw [setStage_self, put_winner, hlive, Option.getD_none, h]
    · exact .inl h

def Decided (key : JsString) (s : RouteState ι) : Prop :=
  ∀ record, s.recordUnder key = some record → ¬(s.stages record.builtBy).Undecided

theorem Decided.step {s s' : RouteState ι} {turn : Turn ι} {key : JsString} (h : Decided key s)
    (houtcome : Outcome env requests s turn s') : Decided key s' := by
  intro record hrecord
  rcases recordUnder_origin houtcome hrecord with hold | ⟨draft, hrecord, hstage⟩
  · exact decided_step houtcome (h record hold)
  · rw [show record.builtBy = turn.request by rw [hrecord]; rfl, hstage]
    exact id

end Records

section Creations

theorem mem_creations {s s' : RouteState ι} {turn : Turn ι} (houtcome : Outcome env requests s turn s')
    {creation : Creation ι} (h : creation ∈ s'.creations) :
    creation ∈ s.creations ∨ creation.request = turn.request ∧
      (keyOf (requests turn.request) = none ∨
        ∃ winner, winner.builtBy = turn.request ∧ s.stages turn.request = .storing creation.draft winner) := by
  cases houtcome with
  | finish draft hstage =>
    have hcreations : (s.finish env requests turn draft).creations = s.creations ++ [⟨turn.request, turn.now, draft⟩] :=
      rfl
    rw [hcreations, List.mem_append, List.mem_singleton] at h
    rcases h with h | rfl
    · exact .inl h
    · exact .inr ⟨rfl, hstage.imp And.left id⟩
  | idle _ _ => exact .inl h
  | fail _ _ _ => exact .inl h
  | authorise _ _ _ _ => exact .inl h
  | lookup _ _ _ => exact .inl h
  | replay _ _ _ => exact .inl h
  | store _ _ _ _ _ => exact .inl h

def Answered (s : RouteState ι) : Prop :=
  ∀ creation ∈ s.creations, ∃ key, s.stages creation.request = .answered (.created creation.draft.response key)

theorem Answered.step {s s' : RouteState ι} {turn : Turn ι} (houtcome : Outcome env requests s turn s')
    (h : s.Answered) : s'.Answered := by
  intro creation hcreation
  by_cases hold : creation ∈ s.creations
  · obtain ⟨key, hkey⟩ := h creation hold
    exact ⟨key, answered_step houtcome hkey⟩
  · cases houtcome with
    | finish draft _ =>
      have hnew : creation = ⟨turn.request, turn.now, draft⟩ := by
        simpa using (List.mem_append.mp hcreation).resolve_left hold
      subst hnew
      exact ⟨keyOf (requests turn.request), Function.update_self ..⟩
    | idle _ _ => exact absurd hcreation hold
    | fail _ _ _ => exact absurd hcreation hold
    | authorise _ _ _ _ => exact absurd hcreation hold
    | lookup _ _ _ => exact absurd hcreation hold
    | replay _ _ _ => exact absurd hcreation hold
    | store _ _ _ _ _ => exact absurd hcreation hold

theorem creations_once {s s' : RouteState ι} {turn : Turn ι} (houtcome : Outcome env requests s turn s')
    (hanswered : s.Answered) (h : UniqueKeys Creation.request s.creations) :
    UniqueKeys Creation.request s'.creations := by
  cases houtcome with
  | finish draft hstage =>
    have hsingle : UniqueKeys Creation.request [(⟨turn.request, turn.now, draft⟩ : Creation ι)] :=
      List.nodup_singleton _
    apply h.append hsingle
    intro creation hcreation other hother heq
    obtain ⟨key, hkey⟩ := hanswered creation hcreation
    rw [List.mem_singleton.mp hother] at heq
    rw [heq] at hkey
    rcases hstage with ⟨-, hstage, -⟩ | ⟨winner, -, hstage⟩
    · exact hstage.undecided.ne_answered _ hkey
    · simp [hkey] at hstage
  | idle _ _ => exact h
  | fail _ _ _ => exact h
  | authorise _ _ _ _ => exact h
  | lookup _ _ _ => exact h
  | replay _ _ _ => exact h
  | store _ _ _ _ _ => exact h

def admitAll (ledger : CapacityLedger (LeaseKey ι)) (creations : List (Creation ι)) : CapacityLedger (LeaseKey ι) :=
  creations.foldl (fun ledger creation => ledger.admitLease creation.at_ creation.admitInput) ledger

variable (env requests) in
def registerAll (campaigns : List CampaignRecord) (creations : List (Creation ι)) : List CampaignRecord :=
  creations.foldl (fun campaigns creation =>
    registerCampaign env.dateParse campaigns creation.at_
      (creation.registerInput (payloadOf (requests creation.request)))) campaigns

theorem creations_run (s : RouteState ι) (turns : List (Turn ι)) :
    ∃ creations, (Histories.run (step env requests) s turns).creations = s.creations ++ creations ∧
      (Histories.run (step env requests) s turns).ledger = admitAll s.ledger creations ∧
      (Histories.run (step env requests) s turns).campaigns = registerAll env requests s.campaigns creations := by
  induction turns generalizing s with
  | nil => exact ⟨[], by simp, rfl, rfl⟩
  | cons turn turns ih =>
    obtain ⟨creations, hlog, hledger, hcampaigns⟩ := ih (s.step env requests turn)
    rw [Histories.run_cons, hlog, hledger, hcampaigns]
    generalize hafter : s.step env requests turn = after
    have houtcome : Outcome env requests s turn (s.step env requests turn) := step_outcome s turn
    rw [hafter] at houtcome
    cases houtcome with
    | finish draft _ =>
      refine ⟨⟨turn.request, turn.now, draft⟩ :: creations, ?_, rfl, rfl⟩
      exact List.append_assoc _ [_] _
    | idle _ _ => exact ⟨creations, rfl, rfl, rfl⟩
    | fail _ _ _ => exact ⟨creations, rfl, rfl, rfl⟩
    | authorise _ _ _ _ => exact ⟨creations, rfl, rfl, rfl⟩
    | lookup _ _ _ => exact ⟨creations, rfl, rfl, rfl⟩
    | replay _ _ _ => exact ⟨creations, rfl, rfl, rfl⟩
    | store _ _ _ _ _ => exact ⟨creations, rfl, rfl, rfl⟩

end Creations

end RouteState

end CrashLab.Campaigns
