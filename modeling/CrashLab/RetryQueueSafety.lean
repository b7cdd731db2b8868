import CrashLab.Histories
import CrashLab.RetryClaims

namespace CrashLab.WebhookRetryQueue

open Histories KeyedLists WebhookDelivery WebhookDlq

variable (urlHost : String → Option String) (options : WebhookRetryQueueOptions)

namespace State

def attemptsOf (s : State) (id : String) : ℕ := s.calls.countP fun call => call.waiting && decide (call.job.id = id)

def attemptsTo (s : State) (host : String) : ℕ :=
  s.calls.countP fun call => call.waiting && decide (retryTargetOf urlHost call.job.request.url = host)

def queued (s : State) (id : String) : ℕ := occurrences RetryJob.id id s.jobs

def delivered (s : State) (id : String) : ℕ :=
  s.outcomes.countP fun outcome => outcome.jobId = id ∧ outcome.outcome = .delivered

def deadLettered (s : State) (id : String) : ℕ := occurrences DlqEntry.requestId id s.deadLetters

end State

def InTime (s : State) : Event → Prop
  | .schedule _ nowMs _ | .runTick nowMs | .settle _ _ nowMs _ =>
    ∀ call ∈ s.calls, call.waiting = true → isLeased call.job nowMs = true
  | .crash _ => True

def NotAgain (id : String) (s : State) : Event → Prop
  | .schedule input _ _ => input.request.id = id → s.delivered id = 0 ∧ s.deadLettered id = 0
  | _ => True

structure Sound (jobs waiting : List RetryJob) : Prop where
  unique : UniqueKeys RetryJob.id jobs
  named : ∀ job ∈ jobs, job.request.id = job.id
  targeted : ∀ job ∈ jobs, job.target = retryTargetOf urlHost job.request.url
  held : ∀ job ∈ waiting, job ∈ jobs
  single : UniqueKeys RetryJob.id waiting
  capped : ∀ target, waiting.countP (·.target = target) ≤ options.perTargetConcurrency

variable {urlHost options} {jobs waiting : List RetryJob} {nowMs : ℤ}

theorem Sound.sublist (sound : Sound urlHost options jobs waiting) {fewer : List RetryJob} (h : fewer.Sublist waiting) :
    Sound urlHost options jobs fewer :=
  { sound with
    held := fun job hjob => sound.held job (h.subset hjob)
    single := sound.single.sublist h
    capped := fun target => (h.countP_le).trans (sound.capped target) }

theorem Sound.schedule (sound : Sound urlHost options jobs waiting)
    (leased : ∀ job ∈ waiting, isLeased job nowMs = true) (input : ScheduleRetryInput) (random : ℚ) :
    Sound urlHost options (schedule urlHost options jobs input nowMs random).1 waiting := by
  obtain ⟨-, -, -, -, heq⟩ | ⟨job, hjob, hfree, heq⟩ := schedule_cases urlHost options jobs input nowMs random
  · rwa [heq]
  · rw [heq]
    refine ⟨sound.unique.put job, ?_, ?_, ?_, sound.single, sound.capped⟩
    · intro other hother
      obtain ⟨hmem, -⟩ | rfl := mem_put.mp hother
      · exact sound.named other hmem
      · rw [hjob.request, hjob.id]
    · intro other hother
      obtain ⟨hmem, -⟩ | rfl := mem_put.mp hother
      · exact sound.targeted other hmem
      · rw [hjob.target, hjob.request]
    · intro other hother
      have hmem := sound.held other hother
      apply mem_put.mpr (Or.inl ⟨hmem, ?_⟩)
      intro hid
      have hget := sound.unique.get_eq hmem
      rw [hid, hjob.id] at hget
      have hlapsed := hfree other hget
      rw [leased other hother] at hlapsed
      cases hlapsed

theorem countP_waiting_le (sound : Sound urlHost options jobs waiting)
    (leased : ∀ job ∈ waiting, isLeased job nowMs = true) (target : String) :
    waiting.countP (·.target = target) ≤ jobs.countP fun job => isLeased job nowMs && decide (job.target = target) := by
  have hsub : waiting.Subperm jobs := (List.Nodup.of_map RetryJob.id sound.single).subperm sound.held
  have hle := hsub.countP_le fun job => isLeased job nowMs && decide (job.target = target)
  apply le_of_eq_of_le _ hle
  apply List.countP_congr
  intro job hjob
  rw [leased job hjob, Bool.true_and]

theorem Sound.runTick (sound : Sound urlHost options jobs waiting)
    (leased : ∀ job ∈ waiting, isLeased job nowMs = true) :
    Sound urlHost options (runTick options jobs nowMs).1 (waiting ++ (runTick options jobs nowMs).2) := by
  obtain ⟨picked, hsub, hfree, hclaimed, hjobs, hcap⟩ := runTick_spec options jobs nowMs
  have hkept : ∀ job ∈ jobs.filter (fun job => job.id ∉ picked.map RetryJob.id),
      job ∈ jobs ∧ job.id ∉ picked.map RetryJob.id := by
    intro job hjob
    rwa [List.mem_filter, decide_eq_true_iff] at hjob
  have hapart : ∀ job ∈ waiting, job.id ∉ picked.map RetryJob.id := by
    intro job hjob hid
    obtain ⟨other, hother, heq⟩ := List.mem_map.mp hid
    rw [← sound.unique.eq (hsub.subset hother) (sound.held job hjob) heq] at hjob
    have hlapsed := (hfree other hother).1
    rw [leased other hjob] at hlapsed
    cases hlapsed
  have hunique := unique_runTick options nowMs sound.unique
  rw [hjobs] at hunique
  rw [hjobs, hclaimed]
  refine ⟨hunique, ?_, ?_, ?_, ?_, ?_⟩
  · intro job hjob
    obtain hjob | hjob := List.mem_append.mp hjob
    · exact sound.named job (hkept job hjob).1
    · obtain ⟨other, hother, rfl⟩ := List.mem_map.mp hjob
      exact sound.named other (hsub.subset hother)
  · intro job hjob
    obtain hjob | hjob := List.mem_append.mp hjob
    · exact sound.targeted job (hkept job hjob).1
    · obtain ⟨other, hother, rfl⟩ := List.mem_map.mp hjob
      exact sound.targeted other (hsub.subset hother)
  · intro job hjob
    rw [List.mem_append] at hjob ⊢
    apply hjob.imp_left
    intro hjob
    rw [List.mem_filter, decide_eq_true_iff]
    exact ⟨sound.held job hjob, hapart job hjob⟩
  · apply sound.single.append (unique_claims (sound.unique.subperm hsub))
    intro job hjob claimed hmem heq
    apply hapart job hjob
    rw [heq, ← map_claim_ids options nowMs]
    exact List.mem_map_of_mem hmem
  · intro target
    have htargets : (picked.map (claim options nowMs)).countP (·.target = target) =
        picked.countP (·.target = target) := by
      rw [List.countP_map]
      rfl
    have hwaiting := countP_waiting_le sound leased target
    have hcapped := sound.capped target
    rw [List.countP_append, htargets]
    obtain hnone | hsome := hcap target
    · omega
    · omega

theorem Sound.apart {before after : List RetryJob} {job : RetryJob}
    (sound : Sound urlHost options jobs (before ++ job :: after)) :
    ∀ other ∈ before ++ after, other.id ≠ job.id := by
  have hnodup := sound.single
  rw [UniqueKeys, List.map_append, List.map_cons] at hnodup
  have hnot := (List.nodup_middle.mp hnodup).notMem
  intro other hother hid
  apply hnot
  rw [← List.map_append, ← hid]
  exact List.mem_map_of_mem hother

theorem Sound.removed {before after : List RetryJob} {job : RetryJob}
    (sound : Sound urlHost options jobs (before ++ job :: after)) :
    Sound urlHost options (remove RetryJob.id job.id jobs) (before ++ after) := by
  have hrest := sound.sublist (List.Sublist.append (List.Sublist.refl before) (List.sublist_cons_self job after))
  exact
    { hrest with
      unique := hrest.unique.remove job.id
      named := fun other hother => hrest.named other (mem_remove.mp hother).1
      targeted := fun other hother => hrest.targeted other (mem_remove.mp hother).1
      held := fun other hother => mem_remove.mpr ⟨hrest.held other hother, sound.apart other hother⟩ }

theorem Sound.renewed {before after : List RetryJob} {job updated : RetryJob}
    (sound : Sound urlHost options jobs (before ++ job :: after)) (h : Renewed job updated) :
    Sound urlHost options (replace RetryJob.id updated jobs) (before ++ after) := by
  have hrest := sound.sublist (List.Sublist.append (List.Sublist.refl before) (List.sublist_cons_self job after))
  have hjob : job ∈ jobs := sound.held job (List.mem_append_right _ List.mem_cons_self)
  refine ⟨hrest.unique.replace updated, ?_, ?_, ?_, hrest.single, hrest.capped⟩
  · intro other hother
    obtain ⟨hmem, -⟩ | ⟨rfl, -⟩ := mem_replace.mp hother
    · exact hrest.named other hmem
    · rw [h.request, h.id]
      exact hrest.named job hjob
  · intro other hother
    obtain ⟨hmem, -⟩ | ⟨rfl, -⟩ := mem_replace.mp hother
    · exact hrest.targeted other hmem
    · rw [h.target, h.request]
      exact hrest.targeted job hjob
  · intro other hother
    apply mem_replace.mpr (Or.inl ⟨hrest.held other hother, ?_⟩)
    rw [h.id]
    exact sound.apart other hother

variable {s : State}

theorem Sound.step (sound : Sound urlHost options s.jobs (waitingJobs s.calls)) (event : Event) (inTime : InTime s event) :
    Sound urlHost options (step urlHost options s event).jobs (waitingJobs (step urlHost options s event).calls) := by
  have hleased : ∀ nowMs, (∀ call ∈ s.calls, call.waiting = true → isLeased call.job nowMs = true) →
      ∀ job ∈ waitingJobs s.calls, isLeased job nowMs = true := by
    intro nowMs h job hjob
    obtain ⟨call, hcall, hwaiting, rfl⟩ := mem_waitingJobs.mp hjob
    exact h call hcall hwaiting
  cases event with
  | schedule input nowMs random => exact sound.schedule (hleased nowMs inTime) input random
  | runTick nowMs =>
    have htick := sound.runTick (hleased nowMs inTime)
    rwa [← waitingJobs_append] at htick
  | crash number => exact sound.sublist (waitingJobs_leave_sublist s.calls number)
  | settle number result now random =>
    simp only [WebhookRetryQueue.step, settle]
    split
    · rename_i job hcall
      obtain ⟨before, after, hbefore, hafter⟩ := waitingJobs_leave hcall
      rw [hbefore] at sound
      obtain ⟨outcome, -, -, heq⟩ | ⟨updated, outcome, hrenewed, -, -, heq⟩ | ⟨outcome, entry, -, -, -, heq⟩ :=
        attempt_cases options s.jobs job result now random
      · rw [heq]
        simp only [hafter]
        exact sound.removed
      · rw [heq]
        simp only [hafter]
        exact sound.renewed hrenewed
      · rw [heq]
        simp only [hafter]
        exact sound.removed
    · exact sound

section Accounting

def State.places (s : State) (id : String) : ℕ := s.queued id + s.delivered id + s.deadLettered id

theorem queued_schedule (urlHost : String → Option String) (options : WebhookRetryQueueOptions) (jobs : List RetryJob)
    (input : ScheduleRetryInput) (nowMs : ℤ) (random : ℚ) (id : String) (unique : UniqueKeys RetryJob.id jobs) :
    occurrences RetryJob.id id (schedule urlHost options jobs input nowMs random).1 =
      if id = input.request.id then 1 else occurrences RetryJob.id id jobs := by
  obtain ⟨existing, hmem, hid, -, heq⟩ | ⟨job, hjob, -, heq⟩ := schedule_cases urlHost options jobs input nowMs random
  · rw [heq]
    split_ifs with h
    · rw [h, ← hid]
      exact unique.occurrences_eq_one hmem
    · rfl
  · rw [heq, occurrences_put, hjob.id]

theorem queued_runTick (unique : UniqueKeys RetryJob.id jobs) (id : String) :
    occurrences RetryJob.id id (runTick options jobs nowMs).1 = occurrences RetryJob.id id jobs := by
  obtain ⟨picked, hsub, -, -, hjobs, -⟩ := runTick_spec options jobs nowMs
  have hclaimed : occurrences RetryJob.id id (picked.map (claim options nowMs)) = occurrences RetryJob.id id picked := by
    rw [occurrences, List.countP_map]
    rfl
  rw [hjobs, occurrences_append, hclaimed]
  by_cases hid : id ∈ picked.map RetryJob.id
  · obtain ⟨job, hjob, rfl⟩ := List.mem_map.mp hid
    have hkept : occurrences RetryJob.id job.id (jobs.filter fun other => other.id ∉ picked.map RetryJob.id) = 0 := by
      rw [occurrences_eq_zero]
      intro other hother heq
      rw [List.mem_filter, decide_eq_true_iff, heq] at hother
      exact hother.2 hid
    rw [hkept, (unique.subperm hsub).occurrences_eq_one hjob, unique.occurrences_eq_one (hsub.subset hjob)]
  · have hpicked : occurrences RetryJob.id id picked = 0 := by
      rw [occurrences_eq_zero]
      rintro job hjob rfl
      exact hid (List.mem_map_of_mem hjob)
    rw [hpicked, Nat.add_zero, occurrences, List.countP_filter, occurrences]
    apply List.countP_congr
    intro job _
    simp only [Bool.and_eq_true, decide_eq_true_eq, and_iff_left_iff_imp]
    rintro rfl
    exact hid

theorem places_schedule (sound : Sound urlHost options s.jobs (waitingJobs s.calls)) (input : ScheduleRetryInput)
    (random : ℚ) (h : NotAgain input.request.id s (.schedule input nowMs random)) :
    (step urlHost options s (.schedule input nowMs random)).places input.request.id = 1 := by
  obtain ⟨hdelivered, hdeadLettered⟩ := h rfl
  have hqueued := queued_schedule urlHost options s.jobs input nowMs random
    input.request.id sound.unique
  rw [if_pos rfl] at hqueued
  simp only [State.places, State.queued, step, hqueued]
  simp only [State.delivered, State.deadLettered] at hdelivered hdeadLettered ⊢
  omega

theorem places_step (sound : Sound urlHost options s.jobs (waitingJobs s.calls)) {id : String} (event : Event)
    (hplaces : s.places id = 1) (h : NotAgain id s event) : (step urlHost options s event).places id = 1 := by
  cases event with
  | schedule input nowMs random =>
    by_cases hid : input.request.id = id
    · subst hid
      exact places_schedule sound input random h
    · have hqueued := queued_schedule urlHost options s.jobs input nowMs random
        id sound.unique
      rw [if_neg (Ne.symm hid)] at hqueued
      rw [← hplaces]
      simp only [State.places, State.queued, State.delivered, State.deadLettered, step, hqueued]
  | runTick nowMs =>
    rw [← hplaces]
    simp only [State.places, State.queued, State.delivered, State.deadLettered, step, queued_runTick sound.unique]
  | crash number => exact hplaces
  | settle number result now random =>
    simp only [step, settle]
    split
    · rename_i job hcall
      have hwaiting : job ∈ waitingJobs s.calls :=
        mem_waitingJobs.mpr ⟨_, List.mem_of_getElem? hcall, rfl, rfl⟩
      have hjob := sound.held job hwaiting
      have hone := sound.unique.occurrences_eq_one hjob
      simp only [State.places, State.queued, State.delivered, State.deadLettered] at hplaces ⊢
      obtain ⟨outcome, hoid, hkind, heq⟩ | ⟨updated, outcome, hrenewed, hoid, hkind, heq⟩ |
          ⟨outcome, entry, hoid, hkind, hentry, heq⟩ :=
        attempt_cases options s.jobs job result now random
      · simp only [heq, Option.toList_none, List.append_nil, List.countP_append, occurrences_remove,
          List.countP_singleton, hoid, hkind, and_true]
        by_cases hid : job.id = id
        · subst hid
          simp only [↓reduceIte, decide_true]
          omega
        · simp only [hid, Ne.symm hid, ↓reduceIte, decide_false, Bool.false_eq_true, Nat.add_zero]
          exact hplaces
      · simp only [heq, Option.toList_none, List.append_nil, List.countP_append, occurrences_replace,
          List.countP_singleton, hkind, reduceCtorEq, and_false, decide_false, Bool.false_eq_true, ↓reduceIte,
          Nat.add_zero]
        exact hplaces
      · simp only [heq, Option.toList_some, List.countP_append, occurrences_remove, occurrences_append,
          occurrences_singleton, List.countP_singleton, hentry, sound.named job hjob, hkind, reduceCtorEq, and_false,
          decide_false, Bool.false_eq_true, ↓reduceIte, Nat.add_zero]
        by_cases hid : job.id = id
        · subst hid
          simp only [↓reduceIte]
          omega
        · simp only [hid, Ne.symm hid, ↓reduceIte, Nat.add_zero]
          exact hplaces
    · exact hplaces

end Accounting

theorem sound_empty : Sound urlHost options [] [] :=
  ⟨List.nodup_nil, nofun, nofun, nofun, List.nodup_nil, fun _ => Nat.zero_le _⟩

theorem sound_run {events : List Event} (inTime : EachStep (step urlHost options) InTime {} events) :
    Sound urlHost options (run (step urlHost options) {} events).jobs
      (waitingJobs (run (step urlHost options) {} events).calls) :=
  inTime.invariant (I := fun s => Sound urlHost options s.jobs (waitingJobs s.calls))
    (fun _ event sound h => sound.step event h) sound_empty

theorem places_run {events : List Event} (inTime : EachStep (step urlHost options) InTime {} events) {id : String}
    (scheduled : ∃ input nowMs random, .schedule input nowMs random ∈ events ∧ input.request.id = id)
    (notAgain : EachStep (step urlHost options) (NotAgain id) {} events) :
    (run (step urlHost options) {} events).places id = 1 := by
  obtain ⟨input, nowMs, random, hmem, rfl⟩ := scheduled
  obtain ⟨before, after, rfl⟩ := List.append_of_mem hmem
  rw [eachStep_append, EachStep] at inTime notAgain
  have hbefore := sound_run inTime.1
  have hstart := places_schedule hbefore input random notAgain.2.1
  have heach := (eachStep_and _ _).mpr ⟨inTime.2.2, notAgain.2.2⟩
  rw [run_append, run_cons]
  refine (heach.invariant (I := fun s => Sound urlHost options s.jobs (waitingJobs s.calls) ∧ s.places input.request.id = 1)
    ?_ ⟨hbefore.step _ inTime.2.1, hstart⟩).2
  intro s event hs h
  exact ⟨hs.1.step event h.1, places_step hs.1 event hs.2 h.2⟩

theorem overlapping_ticks_safe (events : List Event) (inTime : EachStep (step urlHost options) InTime {} events) :
    (∀ id, (run (step urlHost options) {} events).attemptsOf id ≤ 1) ∧
    (∀ host, (run (step urlHost options) {} events).attemptsTo urlHost host ≤ options.perTargetConcurrency) ∧
    ∀ id, (∃ input nowMs random, .schedule input nowMs random ∈ events ∧ input.request.id = id) →
      EachStep (step urlHost options) (NotAgain id) {} events →
        (run (step urlHost options) {} events).queued id + (run (step urlHost options) {} events).delivered id +
          (run (step urlHost options) {} events).deadLettered id = 1 := by
  have hsound := sound_run inTime
  refine ⟨?_, ?_, fun id => places_run inTime⟩
  · intro id
    rw [State.attemptsOf, ← countP_waitingJobs fun job => decide (job.id = id)]
    exact hsound.single.occurrences_le_one id
  · intro host
    rw [State.attemptsTo, ← countP_waitingJobs fun job => decide (retryTargetOf urlHost job.request.url = host)]
    refine le_of_eq_of_le (List.countP_congr ?_) (hsound.capped host)
    intro job hjob
    rw [hsound.targeted job (hsound.held job hjob)]

section Sample

instance (s : State) (event : Event) : Decidable (InTime s event) :=
  match event with
  | .schedule _ nowMs _ | .runTick nowMs | .settle _ _ nowMs _ =>
    inferInstanceAs (Decidable (∀ call ∈ s.calls, call.waiting = true → isLeased call.job nowMs = true))
  | .crash _ => isTrue trivial

instance (id : String) (s : State) (event : Event) : Decidable (NotAgain id s event) :=
  match event with
  | .schedule input _ _ =>
    inferInstanceAs (Decidable (input.request.id = id → s.delivered id = 0 ∧ s.deadLettered id = 0))
  | .runTick _ | .settle .. | .crash _ => isTrue trivial

def sampleHost (_url : String) : Option String := some "rx.io"

def sampleInput (id : String) (attemptsMade : ℕ) : ScheduleRetryInput where
  request :=
    { id := id
      url := "https://rx.io/hook"
      eventType := "run.failed"
      payload := .null }
  attemptsMade := attemptsMade
  immediate := true

def sampleEvents : List Event :=
  [.schedule (sampleInput "a" 1) 0 0, .schedule (sampleInput "b" 1) 0 0, .schedule (sampleInput "c" 4) 0 0,
    .runTick 10, .runTick 20, .settle 1 ⟨false, some 503, none⟩ 30 0, .runTick 40, .schedule (sampleInput "a" 0) 50 0,
    .settle 0 ⟨true, some 200, none⟩ 60 0, .settle 2 ⟨false, some 503, none⟩ 70 0, .runTick 30000]

theorem sample_in_time : EachStep (step sampleHost {}) InTime {} sampleEvents := by decide +kernel

theorem sample_not_again : EachStep (step sampleHost {}) (NotAgain "c") {} sampleEvents := by decide +kernel

theorem sample_scheduled :
    ∃ input nowMs random, .schedule input nowMs random ∈ sampleEvents ∧ input.request.id = "c" :=
  ⟨sampleInput "c" 4, 0, 0, List.mem_cons_of_mem _ (List.mem_cons_of_mem _ List.mem_cons_self), rfl⟩

theorem sample_ticks_safe :
    (∀ id, (run (step sampleHost {}) {} sampleEvents).attemptsOf id ≤ 1) ∧
    (∀ host, (run (step sampleHost {}) {} sampleEvents).attemptsTo sampleHost host ≤ 2) ∧
    (run (step sampleHost {}) {} sampleEvents).queued "c" + (run (step sampleHost {}) {} sampleEvents).delivered "c" +
      (run (step sampleHost {}) {} sampleEvents).deadLettered "c" = 1 := by
  obtain ⟨hattempts, hhosts, hplaces⟩ := overlapping_ticks_safe sampleEvents sample_in_time
  exact ⟨hattempts, hhosts, hplaces "c" sample_scheduled sample_not_again⟩

end Sample

end CrashLab.WebhookRetryQueue
