import CrashLab.WebhookRetryQueue

namespace CrashLab.WebhookRetryQueue

open KeyedLists Sorting WebhookDelivery WebhookDlq

variable {urlHost : String → Option String} {options : WebhookRetryQueueOptions}

section Schedule

structure Scheduled (urlHost : String → Option String) (options : WebhookRetryQueueOptions)
    (input : ScheduleRetryInput) (job : RetryJob) : Prop where
  id : job.id = input.request.id
  request : job.request = input.request
  target : job.target = retryTargetOf urlHost input.request.url
  attempt : job.attempt = input.attemptsMade
  maxAttempts : job.maxAttempts =
    max (input.request.maxAttempts.getD options.maxAttempts) (input.attemptsMade + 1)
  status : job.status = .pending

theorem schedule_cases (urlHost : String → Option String) (options : WebhookRetryQueueOptions)
    (jobs : List RetryJob) (input : ScheduleRetryInput) (nowMs : ℤ) (random : ℚ) :
    (∃ existing ∈ jobs, existing.id = input.request.id ∧ isLeased existing nowMs = true ∧
      (schedule urlHost options jobs input nowMs random).1 = jobs) ∨
    (∃ job, Scheduled urlHost options input job ∧
      (∀ existing, get RetryJob.id input.request.id jobs = some existing → isLeased existing nowMs = false) ∧
      (schedule urlHost options jobs input nowMs random).1 = put RetryJob.id job jobs) := by
  simp only [schedule]
  split
  · rename_i existing h
    obtain ⟨hget, hleased⟩ := Option.filter_eq_some_iff.mp h
    obtain ⟨hmem, hid⟩ := mem_of_get hget
    exact Or.inl ⟨existing, hmem, hid, hleased, rfl⟩
  · rename_i h
    refine Or.inr ⟨_, ⟨rfl, rfl, rfl, rfl, rfl, rfl⟩, ?_, rfl⟩
    intro existing hget
    rw [hget, Option.filter_eq_none_iff] at h
    simpa using h

end Schedule

section Claims

variable {jobs : List RetryJob} {nowMs : ℤ}

theorem inFlightByTarget_eq (nowMs : ℤ) (jobs : List RetryJob) (target : String) :
    inFlightByTarget nowMs jobs target = jobs.countP fun job => isLeased job nowMs && decide (job.target = target) := by
  have hloop : ∀ counts : String → ℕ, jobs.foldl (fun counts job =>
      if isLeased job nowMs then Function.update counts job.target (counts job.target + 1) else counts) counts target =
        counts target + jobs.countP fun job => isLeased job nowMs && decide (job.target = target) := by
    induction jobs with
    | nil => intro counts; rfl
    | cons job jobs ih =>
      intro counts
      rw [List.foldl_cons, ih, List.countP_cons]
      by_cases hleased : isLeased job nowMs = true
      · by_cases htarget : job.target = target
        · subst htarget
          simp only [hleased, ↓reduceIte, Function.update_self, decide_true, Bool.and_self]
          omega
        · have hother : target ≠ job.target := fun h => htarget h.symm
          simp [hleased, htarget, Function.update_of_ne hother]
      · simp [hleased]
  rw [inFlightByTarget, hloop, Nat.zero_add]

theorem claimLoop_spec (options : WebhookRetryQueueOptions) (nowMs : ℤ) (acc : Claims) (due : List RetryJob) :
    ∃ picked : List RetryJob, picked.Sublist due ∧ (claimLoop options nowMs acc due).claimed = acc.claimed ++ picked.map (claim options nowMs) ∧
      ∀ target, picked.countP (·.target = target) = 0 ∨
        acc.inFlightByTarget target + picked.countP (·.target = target) ≤ options.perTargetConcurrency := by
  induction due generalizing acc with
  | nil => exact ⟨[], List.Sublist.refl _, (List.append_nil _).symm, fun _ => Or.inl rfl⟩
  | cons job due ih =>
    rw [claimLoop]
    simp only
    split_ifs with hfull hcap
    · exact ⟨[], List.nil_sublist _, (List.append_nil _).symm, fun _ => Or.inl rfl⟩
    · obtain ⟨picked, hsub, hclaimed, hcount⟩ := ih { acc with throttled := acc.throttled + 1 }
      exact ⟨picked, hsub.cons job, hclaimed, hcount⟩
    · obtain ⟨picked, hsub, hclaimed, hcount⟩ := ih
        { acc with
          inFlightByTarget := Function.update acc.inFlightByTarget job.target (acc.inFlightByTarget job.target + 1)
          claimed := acc.claimed ++ [claim options nowMs job] }
      refine ⟨job :: picked, hsub.cons_cons job, ?_, ?_⟩
      · rw [hclaimed, List.map_cons, List.append_assoc, List.singleton_append]
      · intro target
        rw [List.countP_cons]
        have htarget := hcount target
        by_cases heq : job.target = target
        · subst heq
          simp only [Function.update_self, decide_true, ↓reduceIte] at htarget ⊢
          omega
        · have hother : target ≠ job.target := fun h => heq h.symm
          simp only [Function.update_of_ne hother] at htarget
          simpa [heq] using htarget

theorem runTick_spec (options : WebhookRetryQueueOptions) (jobs : List RetryJob) (nowMs : ℤ) :
    ∃ picked : List RetryJob, picked.Subperm jobs ∧
      (∀ job ∈ picked, isLeased job nowMs = false ∧ job.nextAttemptAt ≤ nowMs) ∧
      (runTick options jobs nowMs).2 = picked.map (claim options nowMs) ∧
      (runTick options jobs nowMs).1 =
        jobs.filter (fun job => job.id ∉ picked.map RetryJob.id) ++ picked.map (claim options nowMs) ∧
      ∀ target, picked.countP (·.target = target) = 0 ∨
        (jobs.countP fun job => isLeased job nowMs && decide (job.target = target)) +
          picked.countP (·.target = target) ≤ options.perTargetConcurrency := by
  obtain ⟨picked, hsub, hclaimed, hcount⟩ := claimLoop_spec options nowMs
    { inFlightByTarget := inFlightByTarget nowMs jobs } (due nowMs jobs)
  have hperm := sortByKey_perm RetryJob.nextAttemptAt
    (jobs.filter fun job => !isLeased job nowMs && decide (job.nextAttemptAt ≤ nowMs))
  rw [List.nil_append] at hclaimed
  have hids : (picked.map (claim options nowMs)).map RetryJob.id = picked.map RetryJob.id := by
    rw [List.map_map]
    rfl
  refine ⟨picked, (hsub.subperm.trans hperm.subperm).trans List.filter_sublist.subperm, ?_, ?_, ?_, ?_⟩
  · intro job hjob
    have hdue := hperm.mem_iff.mp (hsub.subset hjob)
    rw [List.mem_filter, Bool.and_eq_true, Bool.not_eq_true', decide_eq_true_iff] at hdue
    exact hdue.2
  · simp only [runTick, claims, hclaimed]
    split_ifs with hsome
    · rfl
    · rfl
  · simp only [runTick, claims, hclaimed]
    split_ifs with hsome
    · rw [hids]
    · have hnil : picked = [] := by simpa using hsome
      simp [hnil]
  · intro target
    rw [← inFlightByTarget_eq]
    exact hcount target

theorem map_claim_ids (options : WebhookRetryQueueOptions) (nowMs : ℤ) (picked : List RetryJob) :
    (picked.map (claim options nowMs)).map RetryJob.id = picked.map RetryJob.id := by
  rw [List.map_map]
  rfl

theorem unique_claims {options : WebhookRetryQueueOptions} {picked : List RetryJob}
    (unique : UniqueKeys RetryJob.id picked) : UniqueKeys RetryJob.id (picked.map (claim options nowMs)) := by
  rwa [UniqueKeys, map_claim_ids]

theorem unique_runTick (options : WebhookRetryQueueOptions) (nowMs : ℤ) (unique : UniqueKeys RetryJob.id jobs) :
    UniqueKeys RetryJob.id (runTick options jobs nowMs).1 := by
  obtain ⟨picked, hsub, -, -, hjobs, -⟩ := runTick_spec options jobs nowMs
  rw [hjobs]
  apply (unique.sublist List.filter_sublist).append (unique_claims (unique.subperm hsub))
  intro job hjob claimed hmem heq
  rw [List.mem_filter, decide_eq_true_iff, heq, ← map_claim_ids options nowMs] at hjob
  exact hjob.2 (List.mem_map_of_mem hmem)

end Claims

section Attempt

variable {jobs : List RetryJob} {job : RetryJob}

theorem attempt_delivered (options : WebhookRetryQueueOptions) (jobs : List RetryJob) (job : RetryJob)
    {result : DeliveryResult} (now : ℤ) (random : ℚ) (h : result.ok = true) :
    ∃ outcome, outcome.jobId = job.id ∧ outcome.outcome = .delivered ∧
      attempt options jobs job result now random = (remove RetryJob.id job.id jobs, outcome, none) := by
  refine ⟨?outcome, ?_, ?_, ?eq⟩
  case eq =>
    simp only [attempt, h, ↓reduceIte]
    rfl
  · rfl
  · rfl

structure Renewed (job updated : RetryJob) : Prop where
  id : updated.id = job.id
  request : updated.request = job.request
  target : updated.target = job.target
  attempt : updated.attempt = job.attempt
  maxAttempts : updated.maxAttempts = job.maxAttempts
  status : updated.status = .pending

theorem attempt_retried (options : WebhookRetryQueueOptions) (jobs : List RetryJob) (job : RetryJob)
    {result : DeliveryResult} (now : ℤ) (random : ℚ) (h : result.ok = false)
    (hretry : isRetryableDeliveryStatus result.statusCode = true ∧ job.attempt < job.maxAttempts) :
    ∃ updated outcome, Renewed job updated ∧ outcome.jobId = job.id ∧ outcome.outcome = .retryScheduled ∧
      attempt options jobs job result now random = (replace RetryJob.id updated jobs, outcome, none) := by
  refine ⟨?updated, ?outcome, ?_, ?_, ?_, ?eq⟩
  case eq =>
    simp only [attempt, h, Bool.false_eq_true, ↓reduceIte, if_pos hretry]
    rfl
  · exact ⟨rfl, rfl, rfl, rfl, rfl, rfl⟩
  · rfl
  · rfl

theorem attempt_deadLettered (options : WebhookRetryQueueOptions) (jobs : List RetryJob) (job : RetryJob)
    {result : DeliveryResult} (now : ℤ) (random : ℚ) (h : result.ok = false)
    (hretry : ¬(isRetryableDeliveryStatus result.statusCode = true ∧ job.attempt < job.maxAttempts)) :
    ∃ outcome entry, outcome.jobId = job.id ∧ outcome.outcome = .deadLettered ∧ entry.requestId = job.request.id ∧
      attempt options jobs job result now random = (remove RetryJob.id job.id jobs, outcome, some entry) := by
  refine ⟨?outcome, ?entry, ?_, ?_, ?_, ?eq⟩
  case eq =>
    simp only [attempt, h, Bool.false_eq_true, ↓reduceIte, if_neg hretry]
    rfl
  · rfl
  · rfl
  · rfl

theorem attempt_cases (options : WebhookRetryQueueOptions) (jobs : List RetryJob) (job : RetryJob)
    (result : DeliveryResult) (now : ℤ) (random : ℚ) :
    (∃ outcome, outcome.jobId = job.id ∧ outcome.outcome = .delivered ∧
      attempt options jobs job result now random = (remove RetryJob.id job.id jobs, outcome, none)) ∨
    (∃ updated outcome, Renewed job updated ∧ outcome.jobId = job.id ∧ outcome.outcome = .retryScheduled ∧
      attempt options jobs job result now random = (replace RetryJob.id updated jobs, outcome, none)) ∨
    (∃ outcome entry, outcome.jobId = job.id ∧ outcome.outcome = .deadLettered ∧ entry.requestId = job.request.id ∧
      attempt options jobs job result now random = (remove RetryJob.id job.id jobs, outcome, some entry)) := by
  cases hok : result.ok with
  | true => exact Or.inl (attempt_delivered options jobs job now random hok)
  | false =>
    by_cases hretry : isRetryableDeliveryStatus result.statusCode = true ∧ job.attempt < job.maxAttempts
    · exact Or.inr (Or.inl (attempt_retried options jobs job now random hok hretry))
    · exact Or.inr (Or.inr (attempt_deadLettered options jobs job now random hok hretry))

end Attempt

section Calls

def waitingJobs (calls : List DeliverCall) : List RetryJob := (calls.filter DeliverCall.waiting).map DeliverCall.job

theorem mem_waitingJobs {calls : List DeliverCall} {job : RetryJob} :
    job ∈ waitingJobs calls ↔ ∃ call ∈ calls, call.waiting = true ∧ call.job = job := by
  simp only [waitingJobs, List.mem_map, List.mem_filter, and_assoc]

theorem countP_waitingJobs (p : RetryJob → Bool) (calls : List DeliverCall) :
    (waitingJobs calls).countP p = calls.countP fun call => call.waiting && p call.job := by
  rw [waitingJobs, List.countP_map, List.countP_filter]
  apply List.countP_congr
  intro call _
  rw [Bool.and_comm]
  rfl

theorem waitingJobs_append (calls : List DeliverCall) (claimed : List RetryJob) :
    waitingJobs (calls ++ claimed.map fun job => ⟨job, true⟩) = waitingJobs calls ++ claimed := by
  have hclaimed : (claimed.map fun job => DeliverCall.mk job true).filter DeliverCall.waiting =
      claimed.map fun job => ⟨job, true⟩ := by
    rw [List.filter_eq_self]
    intro call hcall
    obtain ⟨job, -, rfl⟩ := List.mem_map.mp hcall
    rfl
  rw [waitingJobs, List.filter_append, hclaimed, List.map_append, List.map_map, waitingJobs]
  congr 1
  exact List.map_id _

theorem split_calls {calls : List DeliverCall} {number : ℕ} {call : DeliverCall} (h : calls[number]? = some call) :
    calls = calls.take number ++ call :: calls.drop (number + 1) ∧
      calls.modify number DeliverCall.leave = calls.take number ++ call.leave :: calls.drop (number + 1) := by
  obtain ⟨hlt, rfl⟩ := List.getElem?_eq_some_iff.mp h
  constructor
  · rw [List.cons_getElem_drop_succ, List.take_append_drop]
  · exact List.modify_eq_take_cons_drop hlt

theorem waitingJobs_leave {calls : List DeliverCall} {number : ℕ} {job : RetryJob}
    (h : calls[number]? = some ⟨job, true⟩) : ∃ before after, waitingJobs calls = before ++ job :: after ∧
      waitingJobs (calls.modify number DeliverCall.leave) = before ++ after := by
  obtain ⟨hcalls, hleave⟩ := split_calls h
  refine ⟨waitingJobs (calls.take number), waitingJobs (calls.drop (number + 1)), ?_, ?_⟩
  · conv_lhs => rw [hcalls]
    simp [waitingJobs]
  · rw [hleave]
    simp [waitingJobs, DeliverCall.leave]

theorem waitingJobs_leave_sublist (calls : List DeliverCall) (number : ℕ) :
    (waitingJobs (calls.modify number DeliverCall.leave)).Sublist (waitingJobs calls) := by
  cases h : calls[number]? with
  | none =>
    rw [List.modify_eq_self (List.getElem?_eq_none_iff.mp h)]
  | some call =>
    obtain ⟨hcalls, hleave⟩ := split_calls h
    have hold : waitingJobs calls =
        waitingJobs (calls.take number) ++ waitingJobs (call :: calls.drop (number + 1)) := by
      conv_lhs => rw [hcalls]
      rw [waitingJobs, List.filter_append, List.map_append]
      rfl
    rw [hold, hleave, waitingJobs, List.filter_append, List.map_append]
    apply List.Sublist.append (List.Sublist.refl _)
    cases hwaiting : call.waiting with
    | true => simp [waitingJobs, DeliverCall.leave, hwaiting]
    | false => simp [waitingJobs, DeliverCall.leave, hwaiting]

end Calls

end CrashLab.WebhookRetryQueue
