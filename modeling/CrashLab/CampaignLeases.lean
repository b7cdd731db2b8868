import CrashLab.CampaignTurns
import CrashLab.LedgerLimits

namespace CrashLab.UsageLedger

open KeyedLists CampaignQuotas

variable {κ : Type} [DecidableEq κ]

section Admissions

theorem sum_replace_le {α : Type} {key : α → κ} (f : α → ℕ) (b : α) {l : List α} (unique : UniqueKeys key l) :
    ((replace key b l).map f).sum ≤ (l.map f).sum + f b := by
  induction l with
  | nil => simp [replace]
  | cons a l ih =>
    have hcons : replace key b (a :: l) = (if key a = key b then b else a) :: replace key b l := rfl
    obtain ⟨hnotin, hrest⟩ := List.nodup_cons.mp (show (key a :: l.map key).Nodup from unique)
    rw [hcons, List.map_cons, List.sum_cons, List.map_cons, List.sum_cons]
    split_ifs with hkey
    · have hsame : replace key b l = l := by
        conv_rhs => rw [← List.map_id l]
        apply List.map_congr_left
        intro c hc
        apply if_neg
        intro heq
        rw [hkey, ← heq] at hnotin
        exact hnotin (List.mem_map_of_mem hc)
      rw [hsame]
      omega
    · have := ih hrest
      omega

theorem unique_setLease {leases : List (CampaignLease κ)} (unique : UniqueKeys CampaignLease.campaignId leases)
    (lease : CampaignLease κ) :
    UniqueKeys CampaignLease.campaignId (CapacityLedger.setLease leases lease) := by
  unfold CapacityLedger.setLease
  split_ifs with hany
  · exact unique.replace lease
  · have hsingle : UniqueKeys CampaignLease.campaignId [lease] := List.nodup_singleton _
    apply unique.append hsingle
    intro other hother new hnew
    rw [List.mem_singleton.mp hnew]
    simp only [List.any_eq_true, decide_eq_true_eq, not_exists, not_and] at hany
    exact hany other hother

theorem sum_setLease_le (f : CampaignLease κ → ℕ) {leases : List (CampaignLease κ)}
    (unique : UniqueKeys CampaignLease.campaignId leases) (lease : CampaignLease κ) :
    ((CapacityLedger.setLease leases lease).map f).sum ≤ (leases.map f).sum + f lease := by
  unfold CapacityLedger.setLease
  split_ifs
  · exact sum_replace_le f lease unique
  · simp

theorem unique_admitLease {ledger : CapacityLedger κ} (unique : UniqueKeys CampaignLease.campaignId ledger.leases)
    (at_ : ℕ) (input : AdmitInput κ) :
    UniqueKeys CampaignLease.campaignId (ledger.admitLease at_ input).leases :=
  unique_setLease (unique.sublist List.filter_sublist) _

theorem activeWorkers_admitLease {ledger : CapacityLedger κ} (unique : UniqueKeys CampaignLease.campaignId ledger.leases)
    (at_ : ℕ) (input : AdmitInput κ) (scope : String) :
    ((ledger.admitLease at_ input).usage at_ scope).activeWorkers ≤
      (ledger.usage at_ scope).activeWorkers + input.workers := by
  rw [activeWorkers_eq, activeWorkers_eq]
  have hpruned : UniqueKeys CampaignLease.campaignId (ledger.prune at_).leases := unique.sublist List.filter_sublist
  have hset := sum_setLease_le (heldWorkers scope at_) hpruned (CapacityLedger.leaseFor at_ input)
  have hkept : ((ledger.prune at_).leases.map (heldWorkers scope at_)).sum ≤
    (ledger.leases.map (heldWorkers scope at_)).sum := sum_filter_le _ _ _
  have hnew := heldWorkers_leaseFor scope at_ input
  have hle : (if input.scope = scope then input.workers else 0) ≤ input.workers := by split_ifs <;> omega
  have hleases : (ledger.admitLease at_ input).leases =
    CapacityLedger.setLease (ledger.prune at_).leases (CapacityLedger.leaseFor at_ input) := rfl
  rw [hleases]
  omega

theorem mem_admitLease {ledger : CapacityLedger κ} {lease : CampaignLease κ} (hlease : lease ∈ ledger.leases) {at_ : ℕ}
    (hactive : lease.isActive at_ = true) {input : AdmitInput κ} (hid : lease.campaignId ≠ input.campaignId) :
    lease ∈ (ledger.admitLease at_ input).leases := by
  simp only [CampaignLease.isActive, Bool.and_eq_true, Option.isNone_iff_eq_none, decide_eq_true_eq] at hactive
  have hkept : lease ∈ (ledger.prune at_).leases := by
    apply List.mem_filter_of_mem hlease
    rw [hactive.1, Option.getD_none, Bool.not_eq_true', decide_eq_false_iff_not]
    omega
  have hleases : (ledger.admitLease at_ input).leases =
    CapacityLedger.setLease (ledger.prune at_).leases (CapacityLedger.leaseFor at_ input) := rfl
  rw [hleases, CapacityLedger.setLease]
  split_ifs
  · exact mem_replace.mpr (.inl ⟨hkept, hid⟩)
  · exact List.mem_append_left _ hkept

omit [DecidableEq κ] in
theorem activeWorkers_later (ledger : CapacityLedger κ) {now later : ℕ} (h : now ≤ later) (scope : String) :
    (ledger.usage later scope).activeWorkers ≤ (ledger.usage now scope).activeWorkers := by
  rw [activeWorkers_eq, activeWorkers_eq]
  exact sum_map_le fun lease _ => heldWorkers_later scope h

end Admissions

end CrashLab.UsageLedger

namespace CrashLab.Campaigns

open JsStrings JsonTexts Admission Idempotency UsageLedger CampaignQuotas KeyedLists Histories

variable {ι : Type} [DecidableEq ι] {env : Deployment} {requests : ι → CampaignRequest}

def pendingOf (i : ι) : Stage ι → ℕ
  | .storing draft winner => if winner.builtBy = i then draft.resources.workers else 0
  | _ => 0

theorem pendingOf_undecided {stage : Stage ι} (h : stage.Undecided) (i : ι) : pendingOf i stage = 0 := by
  cases stage with
  | storing _ _ => exact absurd h id
  | _ => rfl

namespace RouteState

section Pending

variable [Fintype ι]

def pendingWorkers (s : RouteState ι) : ℕ := ∑ i, pendingOf i (s.stages i)

theorem pendingWorkers_setStage (s : RouteState ι) (i : ι) (stage : Stage ι) :
    (s.setStage i stage).pendingWorkers + pendingOf i (s.stages i) = s.pendingWorkers + pendingOf i stage := by
  unfold pendingWorkers
  rw [← Finset.add_sum_erase _ _ (Finset.mem_univ i),
    ← Finset.add_sum_erase Finset.univ (fun j => pendingOf j (s.stages j)) (Finset.mem_univ i), setStage_self]
  have hrest : ∑ j ∈ Finset.univ.erase i, pendingOf j ((s.setStage i stage).stages j) =
      ∑ j ∈ Finset.univ.erase i, pendingOf j (s.stages j) := by
    apply Finset.sum_congr rfl
    intro j hj
    rw [setStage_of_ne s stage (Finset.ne_of_mem_erase hj)]
  omega

end Pending

variable (env requests)

def activeWorkers (s : RouteState ι) (now : ℕ) : ℕ := (s.ledger.usage now defaultQuotaScope).activeWorkers

def checked (s : RouteState ι) (turn : Turn ι) : Option Draft :=
  if (s.stages turn.request).builds (keyOf (requests turn.request)).isSome = true ∧
      ((keyOf (requests turn.request)).bind fun key =>
        s.store.liveAt turn.now (storageKey idempotencyScope key)).isNone = true then
    reservation env requests s turn
  else none

def admits (s : RouteState ι) (turn : Turn ι) : Option Draft :=
  match s.stages turn.request with
  | .storing draft winner => if winner.builtBy = turn.request then some draft else none
  | stage =>
    if keyOf (requests turn.request) = none ∧ stage.builds false = true then reservation env requests s turn
    else none

/-- A check that passes leaves room for the campaigns that are still to be admitted, and a campaign takes no id that
an active lease has. -/
structure Apart [Fintype ι] (s : RouteState ι) (turn : Turn ι) : Prop where
  counted : s.pendingWorkers ≠ 0 → ∀ draft ∈ checked env requests s turn, ∀ limit ∈ env.limits.concurrentWorkers,
    s.activeWorkers turn.now + s.pendingWorkers + draft.resources.workers ≤ limit
  fresh : ∀ draft ∈ admits env requests s turn, ∀ lease ∈ s.ledger.leases,
    lease.campaignId = leaseKey turn.request (draft.response.field "id") → lease.isActive turn.now = false

/-- From a turn on the active workers stay within the limit, and no active lease is touched. -/
def LeasesKept (s : RouteState ι) (turn : Turn ι) : Prop :=
  (∀ now, turn.now ≤ now → ∀ limit, env.limits.concurrentWorkers = some limit →
      (s.step env requests turn).activeWorkers now ≤ limit) ∧
    ∀ lease ∈ s.ledger.leases, lease.isActive turn.now = true → lease ∈ (s.step env requests turn).ledger.leases

structure Within [Fintype ι] (now : ℕ) (s : RouteState ι) : Prop where
  unique : UniqueKeys CampaignLease.campaignId s.ledger.leases
  decided : ∀ key, Decided key s
  noOverride : ∀ i resources checkedAt, s.stages i ≠ .authorising resources checkedAt
  fits : ∀ limit, env.limits.concurrentWorkers = some limit → s.activeWorkers now + s.pendingWorkers ≤ limit

variable {env requests}

theorem Within.later [Fintype ι] {now later : ℕ} {s : RouteState ι} (h : Within env now s) (hle : now ≤ later) :
    Within env later s :=
  { h with
    fits := fun limit hlimit =>
      (Nat.add_le_add_right (activeWorkers_later s.ledger hle _) _).trans (h.fits limit hlimit) }

omit [DecidableEq ι] in
theorem reservation_fits {s : RouteState ι} {turn : Turn ι} {draft : Draft}
    (h : reservation env requests s turn = some draft) {limit : ℕ} (hlimit : env.limits.concurrentWorkers = some limit) :
    s.activeWorkers turn.now + draft.resources.workers ≤ limit := by
  unfold reservation at h
  cases hderived : deriveCampaignRequest (payloadOf (requests turn.request)) with
  | error error => simp [hderived] at h
  | ok resources =>
    cases hreason : parseOverrideReason (requests turn.request).quotaOverride with
    | error error => simp [hderived, hreason] at h
    | ok reason =>
      rw [hderived, hreason] at h
      dsimp only at h
      split_ifs at h with hadmission
      rw [Option.some.injEq] at h
      have hok := (checkAdmission_ok (evaluateCampaignAdmission_ok hadmission)).1 limit hlimit
      rw [deriveCampaignRequest_scope hderived] at hok
      rw [← h]
      exact hok

omit [DecidableEq ι] in
theorem checked_of_builds {s : RouteState ι} {turn : Turn ι} (hbuilds : Builds requests s turn)
    (hlive : ∀ key, keyOf (requests turn.request) = some key →
      s.store.liveAt turn.now (storageKey idempotencyScope key) = none) :
    checked env requests s turn = reservation env requests s turn := by
  apply if_pos
  refine ⟨hbuilds, ?_⟩
  cases hkey : keyOf (requests turn.request) with
  | none => rfl
  | some key => rw [Option.bind_some, hlive key hkey]; rfl

theorem admits_of_builds {s : RouteState ι} {turn : Turn ι} (hbuilds : Builds requests s turn)
    (hkey : keyOf (requests turn.request) = none) :
    admits env requests s turn = reservation env requests s turn := by
  rw [Builds, hkey] at hbuilds
  unfold admits
  cases hstage : s.stages turn.request with
  | storing _ _ => simp [hstage, Stage.builds] at hbuilds
  | _ =>
    rw [hstage] at hbuilds
    exact if_pos ⟨hkey, hbuilds⟩

variable [Fintype ι]

theorem Within.room {s : RouteState ι} {turn : Turn ι} (hapart : Apart env requests s turn)
    (hbuilds : Builds requests s turn) {draft : Draft} (hreserved : reservation env requests s turn = some draft)
    (hlive : ∀ key, keyOf (requests turn.request) = some key →
      s.store.liveAt turn.now (storageKey idempotencyScope key) = none)
    {limit : ℕ} (hlimit : env.limits.concurrentWorkers = some limit) :
    s.activeWorkers turn.now + s.pendingWorkers + draft.resources.workers ≤ limit := by
  by_cases hpending : s.pendingWorkers = 0
  · have := reservation_fits hreserved hlimit
    omega
  · exact hapart.counted hpending draft ((checked_of_builds hbuilds hlive).trans hreserved) limit hlimit

theorem Within.reserved {s : RouteState ι} {turn : Turn ι} {now : ℕ} (h : Within env now s) {draft : Draft}
    (hreserved : Reserved env requests s turn draft) : reservation env requests s turn = some draft := by
  rcases hreserved with hreserved | ⟨resources, checkedAt, hstage⟩
  · exact hreserved
  · exact absurd hstage (h.noOverride _ _ _)

theorem pendingWorkers_decided {s : RouteState ι} {i : ι} {stage : Stage ι} (hstage : pendingOf i stage = 0) :
    (s.setStage i stage).pendingWorkers ≤ s.pendingWorkers := by
  have := pendingWorkers_setStage s i stage
  omega

theorem Within.fits_finish {s : RouteState ι} {turn : Turn ι} (h : Within env turn.now s)
    (hapart : Apart env requests s turn) {draft : Draft}
    (hstage : keyOf (requests turn.request) = none ∧ Builds requests s turn ∧ Reserved env requests s turn draft ∨
      ∃ winner, winner.builtBy = turn.request ∧ s.stages turn.request = .storing draft winner)
    {limit : ℕ} (hlimit : env.limits.concurrentWorkers = some limit) :
    (s.finish env requests turn draft).activeWorkers turn.now + (s.finish env requests turn draft).pendingWorkers ≤
      limit := by
  have hactive : (s.finish env requests turn draft).activeWorkers turn.now ≤
      s.activeWorkers turn.now + draft.resources.workers :=
    activeWorkers_admitLease h.unique turn.now (Creation.admitInput ⟨turn.request, turn.now, draft⟩) _
  have hpending := pendingWorkers_setStage s turn.request
    (.answered (.created draft.response (keyOf (requests turn.request))))
  have hsame : (s.finish env requests turn draft).pendingWorkers =
      (s.setStage turn.request (.answered (.created draft.response (keyOf (requests turn.request))))).pendingWorkers :=
    rfl
  have hanswered : pendingOf turn.request
    (.answered (.created draft.response (keyOf (requests turn.request))) : Stage ι) = 0 := rfl
  rw [hsame]
  rcases hstage with ⟨hkey, hbuilds, hreserved⟩ | ⟨winner, hbuilt, hstage⟩
  · have hroom := Within.room hapart hbuilds (h.reserved hreserved) (by simp [hkey]) hlimit
    omega
  · have hown : pendingOf turn.request (s.stages turn.request) = draft.resources.workers := by
      rw [hstage]
      exact if_pos hbuilt
    have := h.fits limit hlimit
    omega

theorem Within.fits_store {s : RouteState ι} {turn : Turn ι} (h : Within env turn.now s)
    (hapart : Apart env requests s turn) {key : JsString} {draft : Draft}
    (hkey : keyOf (requests turn.request) = some key) (hbuilds : Builds requests s turn)
    (hreserved : Reserved env requests s turn draft) {limit : ℕ} (hlimit : env.limits.concurrentWorkers = some limit) :
    s.activeWorkers turn.now + (s.setStage turn.request (.storing draft
      (s.store.putIfAbsent turn.now (recordOf env requests turn key draft)).1)).pendingWorkers ≤ limit := by
  have hpending := pendingWorkers_setStage s turn.request (.storing draft
    (s.store.putIfAbsent turn.now (recordOf env requests turn key draft)).1)
  rw [pendingOf_undecided hbuilds.undecided, Nat.add_zero, put_winner] at hpending
  rw [put_winner, hpending]
  cases hlive : s.store.liveAt turn.now (storageKey idempotencyScope key) with
  | none =>
    have hroom := Within.room hapart hbuilds (h.reserved hreserved)
      (fun key' hkey' => by rw [hkey, Option.some.injEq] at hkey'; rw [← hkey', hlive]) hlimit
    have hown : pendingOf turn.request
        (.storing draft (recordOf env requests turn key draft)) = draft.resources.workers := if_pos rfl
    rw [Option.getD_none, hown]
    omega
  | some record =>
    -- somebody else has built it: this request has not decided yet
    have hother : record.builtBy ≠ turn.request := by
      intro heq
      have := h.decided key record (recordUnder_of_liveAt hlive)
      rw [heq] at this
      exact this hbuilds.undecided
    have hnone : pendingOf turn.request (.storing draft record) = 0 := if_neg hother
    rw [Option.getD_some, hnone]
    exact h.fits limit hlimit

omit [Fintype ι] in
theorem authorising_step {s s' : RouteState ι} {turn : Turn ι} (houtcome : Outcome env requests s turn s') {i : ι}
    {resources : CampaignResourceRequest} {checkedAt : ℕ} (h : s'.stages i = .authorising resources checkedAt) :
    s.stages i = .authorising resources checkedAt ∨
      ∃ reason, parseOverrideReason (requests turn.request).quotaOverride = .ok (some reason) := by
  by_cases hi : i = turn.request
  · subst hi
    cases houtcome with
    | idle _ _ => exact .inl h
    | fail _ _ _ => simp [answer] at h
    | authorise _ reason hreason _ => exact .inr ⟨reason, hreason⟩
    | lookup _ _ _ => simp at h
    | replay _ _ _ => simp [answer] at h
    | store _ _ _ _ _ => simp at h
    | finish _ _ => simp [finish] at h
  · rw [stages_of_ne houtcome hi] at h
    exact .inl h

theorem Within.fits_step {s s' : RouteState ι} {turn : Turn ι} (h : Within env turn.now s)
    (hapart : Apart env requests s turn) (houtcome : Outcome env requests s turn s') {limit : ℕ}
    (hlimit : env.limits.concurrentWorkers = some limit) :
    s'.activeWorkers turn.now + s'.pendingWorkers ≤ limit := by
  have hfits := h.fits limit hlimit
  cases houtcome with
  | idle _ _ => exact hfits
  | fail reply _ _ =>
    have : (s.answer turn.request reply).pendingWorkers ≤ s.pendingWorkers := pendingWorkers_decided rfl
    exact (Nat.add_le_add_left this _).trans hfits
  | authorise resources _ _ _ =>
    have : (s.setStage turn.request (.authorising resources turn.now)).pendingWorkers ≤ s.pendingWorkers :=
      pendingWorkers_decided rfl
    exact (Nat.add_le_add_left this _).trans hfits
  | lookup key _ _ =>
    have : (s.setStage turn.request (.lookingUp (s.store.get turn.now idempotencyScope key).1)).pendingWorkers ≤
      s.pendingWorkers := pendingWorkers_decided rfl
    exact (Nat.add_le_add_left this _).trans hfits
  | replay record _ _ =>
    have : (s.answer turn.request (.replayed record.response ((keyOf (requests turn.request)).getD []))).pendingWorkers ≤
      s.pendingWorkers := pendingWorkers_decided rfl
    exact (Nat.add_le_add_left this _).trans hfits
  | store key draft hkey hbuilds hreserved => exact h.fits_store hapart hkey hbuilds hreserved hlimit
  | finish draft hstage => exact h.fits_finish hapart hstage hlimit

theorem Within.step (hoverride : ∀ i, (requests i).quotaOverride = none) {s : RouteState ι} {turn : Turn ι}
    (h : Within env turn.now s) (hapart : Apart env requests s turn) :
    Within env turn.now (s.step env requests turn) := by
  have houtcome : Outcome env requests s turn (s.step env requests turn) := step_outcome s turn
  generalize s.step env requests turn = s' at houtcome
  refine ⟨?_, fun key => (h.decided key).step houtcome, ?_, fun limit hlimit => h.fits_step hapart houtcome hlimit⟩
  · cases houtcome with
    | finish draft _ => exact unique_admitLease h.unique turn.now _
    | _ => exact h.unique
  · intro i resources checkedAt hstage
    rcases authorising_step houtcome hstage with hbefore | ⟨reason, hreason⟩
    · exact h.noOverride i resources checkedAt hbefore
    · rw [hoverride] at hreason
      cases hreason

theorem Within.kept (hoverride : ∀ i, (requests i).quotaOverride = none) {s : RouteState ι} {turn : Turn ι}
    (h : Within env turn.now s) (hapart : Apart env requests s turn) : LeasesKept env requests s turn := by
  refine ⟨fun now hnow limit hlimit => ?_, fun lease hlease hactive => ?_⟩
  · have hfits := (h.step hoverride hapart).fits limit hlimit
    have hlater : (s.step env requests turn).activeWorkers now ≤ (s.step env requests turn).activeWorkers turn.now :=
      activeWorkers_later _ hnow _
    omega
  · have houtcome : Outcome env requests s turn (s.step env requests turn) := step_outcome s turn
    generalize s.step env requests turn = s' at houtcome
    cases houtcome with
    | finish draft hstage =>
      have hadmits : admits env requests s turn = some draft := by
        rcases hstage with ⟨hkey, hbuilds, hreserved⟩ | ⟨winner, hbuilt, hstage⟩
        · rw [admits_of_builds hbuilds hkey]
          exact h.reserved hreserved
        · rw [admits, hstage]
          exact if_pos hbuilt
      apply mem_admitLease hlease hactive
      intro hid
      rw [hapart.fresh draft hadmits lease hlease hid] at hactive
      cases hactive
    | _ => exact hlease

theorem workers_within_limit (env : Deployment) (requests : ι → CampaignRequest)
    (hoverride : ∀ i, (requests i).quotaOverride = none) (turns : List (Turn ι))
    (hclock : turns.Pairwise fun turn later => turn.now ≤ later.now)
    (hturns : EachStep (step env requests) (Apart env requests) {} turns) :
    EachStep (step env requests) (LeasesKept env requests) {} turns := by
  have hstart : ∀ now, Within env now ({} : RouteState ι) := by
    refine fun now => ⟨List.nodup_nil, fun key record hrecord => ?_, ?_, fun limit _ => ?_⟩
    · cases hrecord
    · intro i resources checkedAt h
      cases h
    · have hnone : ({} : RouteState ι).pendingWorkers = 0 := Finset.sum_eq_zero fun i _ => rfl
      rw [hnone]
      exact Nat.zero_le limit
  suffices hrun : ∀ (s : RouteState ι), (∀ turn ∈ turns.head?, Within env turn.now s) →
      EachStep (step env requests) (Apart env requests) s turns →
        EachStep (step env requests) (LeasesKept env requests) s turns from
    hrun {} (fun turn _ => hstart turn.now) hturns
  clear hturns hstart
  induction turns with
  | nil => exact fun _ _ _ => trivial
  | cons turn turns ih =>
    intro s hwithin hturns
    have hnow := hwithin turn rfl
    refine ⟨hnow.kept hoverride hturns.1, ih hclock.of_cons _ (fun later hlater => ?_) hturns.2⟩
    exact (hnow.step hoverride hturns.1).later (List.rel_of_pairwise_cons hclock (List.mem_of_mem_head? hlater))

section Samples

instance Apart.decidable (env : Deployment) (requests : ι → CampaignRequest) (s : RouteState ι) (turn : Turn ι) :
    Decidable (Apart env requests s turn) :=
  decidable_of_iff
    ((s.pendingWorkers ≠ 0 → ∀ draft ∈ checked env requests s turn, ∀ limit ∈ env.limits.concurrentWorkers,
        s.activeWorkers turn.now + s.pendingWorkers + draft.resources.workers ≤ limit) ∧
      ∀ draft ∈ admits env requests s turn, ∀ lease ∈ s.ledger.leases,
        lease.campaignId = leaseKey turn.request (draft.response.field "id") → lease.isActive turn.now = false)
    ⟨fun h => ⟨h.1, h.2⟩, fun h => ⟨h.counted, h.fresh⟩⟩

def oneWorkerDeployment : Deployment :=
  { limits := { concurrentWorkers := some 1 }, sha256 := id, dateParse := fun _ => none }

def rivalRequests (i : Bool) : CampaignRequest :=
  { principal := "alice", idempotencyKey := some (if i = false then [0x61] else [0x62]), body := .ok (.object []) }

def turnOf (request : Bool) (now : ℕ) : Turn Bool := ⟨request, now, if request = false then [0x30] else [0x31], false⟩

def orderlyTurns : List (Turn Bool) :=
  [turnOf false 0, turnOf true 1, turnOf false 2, turnOf false 3, turnOf true 4]

theorem orderly_turns_keep_leases :
    EachStep (step oneWorkerDeployment rivalRequests) (LeasesKept oneWorkerDeployment rivalRequests) {}
      orderlyTurns :=
  workers_within_limit oneWorkerDeployment rivalRequests (by decide) orderlyTurns (by decide) (by decide +kernel)

def racingChecks : List (Turn Bool) :=
  [turnOf false 0, turnOf true 1, turnOf false 2, turnOf true 3, turnOf false 4, turnOf true 5]

theorem racing_checks_oversubscribe :
    ¬∀ (env : Deployment) (requests : Bool → CampaignRequest) (turns : List (Turn Bool)),
      (∀ i, (requests i).quotaOverride = none) → (turns.Pairwise fun turn later => turn.now ≤ later.now) →
        EachStep (step env requests) (LeasesKept env requests) {} turns := by
  intro h
  have hkept := (h oneWorkerDeployment rivalRequests racingChecks (by decide) (by decide)).2.2.2.2.2.1
  exact absurd (hkept.1 5 le_rfl 1 rfl) (by decide +kernel)

end Samples

end RouteState

end CrashLab.Campaigns
