import CrashLab.RetryQueueSafety

namespace CrashLab.WebhookRetryQueue

open Histories KeyedLists WebhookDelivery WebhookDlq

/-- The calls of `deliver` that have been started for a job. -/
def State.started (s : State) (id : String) : ℕ := s.calls.countP fun call => decide (call.job.id = id)

def Event.schedules (id : String) : Event → Prop
  | .schedule input _ _ => input.request.id = id
  | _ => False

def AttemptLeft (id : String) (s : State) : Event → Prop
  | .runTick nowMs => ∀ job ∈ s.jobs, job.id = id → isLeased job nowMs = false → job.nextAttemptAt ≤ nowMs →
    job.attempt < job.maxAttempts
  | _ => True

/-- From `base` calls on, the counter of a job is `made` ahead of the calls that were started for it. -/
structure Counted (id : String) (base made maxAttempts : ℕ) (s : State) : Prop where
  counter : ∀ job ∈ s.jobs, job.id = id → job.attempt + base = made + s.started id ∧ job.maxAttempts = maxAttempts
  within : s.started id ≤ base + (maxAttempts - made)

variable {urlHost : String → Option String} {options : WebhookRetryQueueOptions} {s : State} {id : String}
  {base made maxAttempts : ℕ}

theorem started_leave (calls : List DeliverCall) (number : ℕ) (p : RetryJob → Bool) :
    (calls.modify number DeliverCall.leave).countP (fun call => p call.job) = calls.countP fun call => p call.job := by
  cases h : calls[number]? with
  | none => rw [List.modify_eq_self (List.getElem?_eq_none_iff.mp h)]
  | some call =>
    obtain ⟨hcalls, hleave⟩ := split_calls h
    rw [hleave]
    conv_rhs => rw [hcalls]
    simp only [List.countP_append, List.countP_cons, DeliverCall.leave]

theorem started_runTick (urlHost : String → Option String) (id : String) (nowMs : ℤ) {picked : List RetryJob}
    (h : (runTick options s.jobs nowMs).2 = picked.map (claim options nowMs)) :
    (step urlHost options s (.runTick nowMs)).started id = s.started id + occurrences RetryJob.id id picked := by
  simp only [State.started, step, h, List.countP_append, List.countP_map]
  rfl

theorem Counted.runTick (counted : Counted id base made maxAttempts s)
    (sound : Sound urlHost options s.jobs (waitingJobs s.calls)) (nowMs : ℤ) (left : AttemptLeft id s (.runTick nowMs)) :
    Counted id base made maxAttempts (step urlHost options s (.runTick nowMs)) := by
  obtain ⟨picked, hsub, hdue, hclaimed, hjobs, -⟩ := runTick_spec options s.jobs nowMs
  have hstarted := started_runTick urlHost id nowMs hclaimed
  have hstep : (step urlHost options s (.runTick nowMs)).jobs = (WebhookRetryQueue.runTick options s.jobs nowMs).1 := rfl
  by_cases hid : id ∈ picked.map RetryJob.id
  · obtain ⟨job, hjob, hjid⟩ := List.mem_map.mp hid
    have hone := (sound.unique.subperm hsub).occurrences_eq_one hjob
    rw [hjid] at hone
    obtain ⟨hcounter, hmax⟩ := counted.counter job (hsub.subset hjob) hjid
    have hleft := left job (hsub.subset hjob) hjid (hdue job hjob).1 (hdue job hjob).2
    refine ⟨?_, by omega⟩
    intro other hother hoid
    rw [hstep, hjobs, List.mem_append] at hother
    obtain hother | hother := hother
    · rw [List.mem_filter, decide_eq_true_iff, hoid] at hother
      exact absurd hid hother.2
    · obtain ⟨source, hsource, rfl⟩ := List.mem_map.mp hother
      have hsame : source = job :=
        (sound.unique.subperm hsub).eq hsource hjob (hoid.trans hjid.symm)
      subst hsame
      simp only [claim]
      omega
  · have hnone : occurrences RetryJob.id id picked = 0 := by
      rw [occurrences_eq_zero]
      rintro job hjob rfl
      exact hid (List.mem_map_of_mem hjob)
    rw [hnone, Nat.add_zero] at hstarted
    refine ⟨?_, by rw [hstarted]; exact counted.within⟩
    intro other hother hoid
    rw [hstep, hjobs, List.mem_append] at hother
    rw [hstarted]
    obtain hother | hother := hother
    · exact counted.counter other (List.mem_filter.mp hother).1 hoid
    · obtain ⟨source, hsource, rfl⟩ := List.mem_map.mp hother
      exact absurd (List.mem_map.mpr ⟨source, hsource, hoid⟩) hid

theorem Counted.schedule (counted : Counted id base made maxAttempts s) {input : ScheduleRetryInput}
    (h : input.request.id ≠ id) (nowMs : ℤ) (random : ℚ) :
    Counted id base made maxAttempts (step urlHost options s (.schedule input nowMs random)) := by
  refine ⟨?_, counted.within⟩
  intro job hjob hid
  simp only [WebhookRetryQueue.step] at hjob
  obtain ⟨-, -, -, -, heq⟩ | ⟨new, hnew, -, heq⟩ := schedule_cases urlHost options s.jobs input nowMs random
  · rw [heq] at hjob
    exact counted.counter job hjob hid
  · rw [heq, mem_put] at hjob
    obtain ⟨hjob, -⟩ | rfl := hjob
    · exact counted.counter job hjob hid
    · exact absurd (hnew.id.symm.trans hid) h

theorem Counted.settle (counted : Counted id base made maxAttempts s)
    (sound : Sound urlHost options s.jobs (waitingJobs s.calls)) (number : ℕ) (result : DeliveryResult) (now : ℤ)
    (random : ℚ) : Counted id base made maxAttempts (settle options s number result now random) := by
  unfold WebhookRetryQueue.settle
  split
  · rename_i job hcall
    have hjob : job ∈ s.jobs := sound.held job (mem_waitingJobs.mpr ⟨_, List.mem_of_getElem? hcall, rfl, rfl⟩)
    have hstarted := started_leave s.calls number fun job => decide (job.id = id)
    have hremoved : ∀ other ∈ remove RetryJob.id job.id s.jobs, other.id = id →
        other.attempt + base = made + s.started id ∧ other.maxAttempts = maxAttempts :=
      fun other hother hid => counted.counter other (mem_remove.mp hother).1 hid
    obtain ⟨outcome, -, -, heq⟩ | ⟨updated, outcome, hrenewed, -, -, heq⟩ | ⟨outcome, entry, -, -, -, heq⟩ :=
      attempt_cases options s.jobs job result now random
    · rw [heq]
      refine ⟨?_, ?_⟩
      · simp only [State.started, hstarted]
        exact hremoved
      · simp only [State.started, hstarted]
        exact counted.within
    · rw [heq]
      refine ⟨?_, ?_⟩
      · simp only [State.started, hstarted]
        intro other hother hid
        obtain ⟨hother, -⟩ | ⟨rfl, -⟩ := mem_replace.mp hother
        · exact counted.counter other hother hid
        · rw [hrenewed.attempt, hrenewed.maxAttempts]
          exact counted.counter job hjob (hrenewed.id.symm.trans hid)
      · simp only [State.started, hstarted]
        exact counted.within
    · rw [heq]
      refine ⟨?_, ?_⟩
      · simp only [State.started, hstarted]
        exact hremoved
      · simp only [State.started, hstarted]
        exact counted.within
  · exact counted

theorem Counted.step (counted : Counted id base made maxAttempts s)
    (sound : Sound urlHost options s.jobs (waitingJobs s.calls)) (event : Event) (h : ¬event.schedules id)
    (left : AttemptLeft id s event) : Counted id base made maxAttempts (step urlHost options s event) := by
  cases event with
  | schedule input nowMs random =>
    exact counted.schedule h nowMs random
  | runTick nowMs => exact counted.runTick sound nowMs left
  | settle number result now random => exact counted.settle sound number result now random
  | crash number =>
    have hstarted := started_leave s.calls number fun job => decide (job.id = id)
    refine ⟨?_, ?_⟩
    · simp only [State.started, WebhookRetryQueue.step, hstarted]
      exact counted.counter
    · simp only [State.started, WebhookRetryQueue.step, hstarted]
      exact counted.within

theorem counted_schedule (urlHost : String → Option String) (options : WebhookRetryQueueOptions)
    (input : ScheduleRetryInput) (nowMs : ℤ) (random : ℚ)
    (free : ∀ job ∈ s.jobs, job.id = input.request.id → isLeased job nowMs = false) :
    Counted input.request.id (s.started input.request.id) input.attemptsMade
      (max (input.request.maxAttempts.getD options.maxAttempts) (input.attemptsMade + 1))
      (step urlHost options s (.schedule input nowMs random)) := by
  refine ⟨?_, Nat.le_add_right _ _⟩
  intro job hjob hid
  simp only [WebhookRetryQueue.step] at hjob
  obtain ⟨existing, hmem, hexisting, hleased, -⟩ | ⟨new, hnew, -, heq⟩ :=
    schedule_cases urlHost options s.jobs input nowMs random
  · rw [free existing hmem hexisting] at hleased
    cases hleased
  · rw [heq, mem_put] at hjob
    obtain ⟨-, hother⟩ | rfl := hjob
    · exact absurd (hid.trans hnew.id.symm) hother
    · rw [hnew.attempt, hnew.maxAttempts]
      exact ⟨rfl, rfl⟩

theorem started_within_budget (before after : List Event) (input : ScheduleRetryInput) (nowMs : ℤ) (random : ℚ)
    (inTime : EachStep (step urlHost options) InTime {} (before ++ .schedule input nowMs random :: after))
    (free : ∀ job ∈ (run (step urlHost options) {} before).jobs, job.id = input.request.id →
      isLeased job nowMs = false)
    (once : ∀ event ∈ after, ¬event.schedules input.request.id)
    (left : EachStep (step urlHost options) (AttemptLeft input.request.id)
      (run (step urlHost options) {} (before ++ [.schedule input nowMs random])) after) :
    (run (step urlHost options) {} (before ++ .schedule input nowMs random :: after)).started input.request.id ≤
      (run (step urlHost options) {} before).started input.request.id +
        (max (input.request.maxAttempts.getD options.maxAttempts) (input.attemptsMade + 1) - input.attemptsMade) := by
  rw [eachStep_append, EachStep] at inTime
  have hbefore := sound_run inTime.1
  have hstart := counted_schedule urlHost options input nowMs random free
  rw [run_append, run_cons, run_nil] at left
  rw [run_append, run_cons]
  have heach := (eachStep_and _ _).mpr ⟨(eachStep_and _ _).mpr ⟨inTime.2.2, left⟩, EachStep.of_forall once _⟩
  have hrun := heach.invariant (I := fun s => Sound urlHost options s.jobs (waitingJobs s.calls) ∧
      Counted input.request.id ((run (step urlHost options) {} before).started input.request.id) input.attemptsMade
        (max (input.request.maxAttempts.getD options.maxAttempts) (input.attemptsMade + 1)) s)
    ?_ ⟨hbefore.step _ inTime.2.1, hstart⟩
  · exact hrun.2.within
  · rintro s event ⟨hsound, hcounted⟩ ⟨⟨hinTime, hleft⟩, honce⟩
    exact ⟨hsound.step event hinTime, hcounted.step hsound event honce hleft⟩

section Sample

instance (id : String) (s : State) (event : Event) : Decidable (AttemptLeft id s event) :=
  match event with
  | .runTick nowMs =>
    inferInstanceAs (Decidable (∀ job ∈ s.jobs, job.id = id → isLeased job nowMs = false → job.nextAttemptAt ≤ nowMs →
      job.attempt < job.maxAttempts))
  | .schedule .. | .settle .. | .crash _ => isTrue trivial

instance (id : String) (event : Event) : Decidable (event.schedules id) :=
  match event with
  | .schedule input _ _ => inferInstanceAs (Decidable (input.request.id = id))
  | .runTick _ | .settle .. | .crash _ => isFalse nofun

def sampleCrashes : List Event :=
  [.runTick 0, .crash 0, .runTick 60000, .settle 1 ⟨false, some 503, none⟩ 60010 0, .runTick 600000,
    .settle 2 ⟨true, some 200, none⟩ 600010 0]

theorem sample_within_budget :
    (run (step sampleHost {}) {} ([] ++ .schedule (sampleInput "a" 1) 0 0 :: sampleCrashes)).started "a" ≤
      (run (step sampleHost {}) {} []).started "a" + (max 5 (1 + 1) - 1) := by
  apply started_within_budget [] sampleCrashes (sampleInput "a" 1) 0 0
  · decide +kernel
  · exact nofun
  · decide +kernel
  · decide +kernel

theorem crash_grants_attempt : ¬∀ after,
    EachStep (step sampleHost {}) InTime {} (.schedule (sampleInput "a" 4) 0 0 :: after) →
      (run (step sampleHost {}) {} (.schedule (sampleInput "a" 4) 0 0 :: after)).started "a" ≤ 5 - 4 := by
  -- a job with one attempt left, whose worker dies in that attempt
  intro h
  have hstarted := h [.runTick 0, .crash 0, .runTick 60000] (by decide +kernel)
  revert hstarted
  decide +kernel

end Sample

end CrashLab.WebhookRetryQueue
