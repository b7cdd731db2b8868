import CrashLab.Histories
import CrashLab.RetryClaims
import CrashLab.WebhookRetryQueue

namespace CrashLab.WebhookDeliveryWorker

open Histories KeyedLists WebhookDelivery WebhookDlq WebhookRetryQueue

def Kept (s : System) (id : String) : Prop :=
  id ∈ s.stored.map WebhookDeliveryRequest.id ∨ id ∈ s.retryJobs.map RetryJob.id ∨
    id ∈ s.deadLetters.map DlqEntry.requestId ∨ id ∈ s.delivered

def Worker.inFlight (worker : Worker) : Option WebhookDeliveryRequest :=
  match worker.draining with
  | some (.delivering request _ _) | some (.delaying request _ _) => some request
  | _ => none

def Present (s : System) (id : String) : Prop := Kept s id ∨ ∃ request, s.worker.inFlight = some request ∧ request.id = id

variable (urls : UrlParser) (options : WebhookDeliveryWorkerOptions)

/-- What an event must not do for deliveries to survive it: take a request without attempts, give up on a request
with no one to hand it to, or end the process, or the drain, while a delivery is in flight that no store has. -/
def Survivable (s : System) : Event → Prop
  | .enqueue request => (assertRequest urls request).isOk = true → 1 ≤ attemptsOf options request
  | .returned result _ _ =>
    match s.worker.draining with
    | some (.delivering request attempt _) => options.onDeadLetter = true ∨ result.ok = true ∨
      attempt ≠ attemptsOf options request ∧ isRetryableDeliveryStatus result.statusCode = true
    | _ => True
  | .rejected | .crash => ∀ request ∈ s.worker.inFlight, Kept s request.id
  | _ => True

structure Held (s : System) : Prop where
  present : ∀ id ∈ s.accepted, Present s id
  tries : ∀ request ∈ s.stored ++ s.worker.queue, 1 ≤ attemptsOf options request
  named : ∀ entry ∈ s.deadLetters, entry.id = "dlq-" ++ entry.requestId

variable {urls options} {s : System}

theorem held_processQueue (kept : ∀ id ∈ s.accepted, Kept s id) (queue : List WebhookDeliveryRequest)
    (tries : ∀ request ∈ s.stored ++ queue, 1 ≤ attemptsOf options request)
    (named : ∀ entry ∈ s.deadLetters, entry.id = "dlq-" ++ entry.requestId) :
    Held options (processQueue options s queue) := by
  cases queue with
  | nil => exact ⟨fun id hid => Or.inl (kept id hid), tries, named⟩
  | cons request rest =>
    rw [processQueue]
    have htries : 1 ≤ attemptsOf options request := tries request (by simp)
    simp only [htries, ↓reduceIte]
    split_ifs with hactive
    · refine ⟨?_, ?_, named⟩
      · intro id hid
        by_cases heq : request.id = id
        · exact Or.inr ⟨request, rfl, heq⟩
        · left
          apply (kept id hid).imp_left
          intro hstored
          obtain ⟨other, hother, rfl⟩ := List.mem_map.mp hstored
          exact List.mem_map_of_mem (mem_remove.mpr ⟨hother, fun h => heq h.symm⟩)
      · intro other hother
        apply tries
        rw [List.mem_append] at hother ⊢
        exact hother.imp (fun h => (mem_remove.mp h).1) (List.mem_cons_of_mem _)
    · exact ⟨fun id hid => Or.inl (kept id hid), tries, named⟩

theorem Held.kept (held : Held options s) (h : s.worker.draining = none ∨ s.worker.draining = some .ending) :
    ∀ id ∈ s.accepted, Kept s id := by
  intro id hid
  obtain hkept | ⟨request, hrequest, -⟩ := held.present id hid
  · exact hkept
  · obtain h | h := h
    · rw [Worker.inFlight, h] at hrequest
      cases hrequest
    · rw [Worker.inFlight, h] at hrequest
      cases hrequest

theorem Held.drain (held : Held options s) : Held options (drain options s) := by
  unfold WebhookDeliveryWorker.drain
  split
  · exact held
  · rename_i hnone
    exact held_processQueue (held.kept (Or.inl hnone)) _ held.tries held.named

theorem Held.enqueue (held : Held options s) {request : WebhookDeliveryRequest}
    (htaken : (assertRequest urls request).isOk = true → 1 ≤ attemptsOf options request) :
    Held options (enqueue urls options s request) := by
  unfold WebhookDeliveryWorker.enqueue
  split
  · exact held
  · rename_i accepted hassert
    have h : 1 ≤ attemptsOf options request := htaken (by rw [hassert]; rfl)
    have hqueued : Held options
        { s with
          worker :=
            { s.worker with
              queue := s.worker.queue ++ [{ request with timeoutMs := some (request.timeoutMs.getD options.timeoutMs) }] }
          stored := s.stored ++ [{ request with timeoutMs := some (request.timeoutMs.getD options.timeoutMs) }]
          accepted := s.accepted ++ [request.id] } := by
      refine ⟨?_, ?_, held.named⟩
      · intro id hid
        obtain hid | hid := List.mem_append.mp hid
        · apply (held.present id hid).imp_left
          apply Or.imp_left
          intro hstored
          rw [List.map_append, List.mem_append]
          exact Or.inl hstored
        · left
          left
          rw [List.mem_singleton.mp hid, List.map_append, List.mem_append]
          exact Or.inr (List.mem_singleton.mpr rfl)
      · intro other hother
        simp only [List.mem_append, List.mem_singleton] at hother
        obtain (hother | rfl) | (hother | rfl) := hother
        · exact held.tries other (List.mem_append_left _ hother)
        · exact h
        · exact held.tries other (List.mem_append_right _ hother)
        · exact h
    simp only
    split_ifs
    · exact hqueued.drain
    · exact hqueued

theorem mem_recovered (stored queue : List WebhookDeliveryRequest) {request : WebhookDeliveryRequest}
    (h : request ∈ stored.foldl
      (fun queue request => if queue.any (fun q => q.id = request.id) then queue else queue ++ [request]) queue) :
    request ∈ stored ++ queue := by
  induction stored generalizing queue with
  | nil => exact h
  | cons first stored ih =>
    have hmem := ih _ h
    simp only at hmem
    rw [List.cons_append, List.mem_cons]
    rw [List.mem_append] at hmem ⊢
    split_ifs at hmem
    · exact Or.inr hmem
    · rw [List.mem_append, List.mem_singleton] at hmem
      tauto

theorem Held.start (held : Held options s) : Held options (start options s) := by
  simp only [WebhookDeliveryWorker.start]
  split_ifs
  · exact held
  · apply Held.drain
    refine ⟨held.present, ?_, held.named⟩
    intro request hrequest
    apply held.tries
    rw [List.mem_append] at hrequest ⊢
    obtain h | h := hrequest
    · exact Or.inl h
    · exact List.mem_append.mp (mem_recovered _ _ h)

theorem kept_scheduled {id : String} (hkept : Kept s id) (host : String → Option String)
    (retryQueue : WebhookRetryQueueOptions) (input : ScheduleRetryInput) (now : ℤ) (random : ℚ) :
    Kept { s with retryJobs := (schedule host retryQueue s.retryJobs input now random).1 } id := by
  apply hkept.imp_right
  apply Or.imp_left
  intro hjob
  obtain ⟨job, hmem, rfl⟩ := List.mem_map.mp hjob
  obtain ⟨-, -, -, -, heq⟩ | ⟨new, -, -, heq⟩ := schedule_cases host retryQueue s.retryJobs input now random
  · rw [heq]
    exact hjob
  · rw [heq]
    by_cases hid : job.id = new.id
    · rw [hid]
      exact List.mem_map_of_mem (mem_put.mpr (Or.inr rfl))
    · exact List.mem_map_of_mem (mem_put.mpr (Or.inl ⟨hmem, hid⟩))

theorem scheduled_kept (host : String → Option String) (retryQueue : WebhookRetryQueueOptions)
    (input : ScheduleRetryInput) (now : ℤ) (random : ℚ) :
    Kept { s with retryJobs := (schedule host retryQueue s.retryJobs input now random).1 } input.request.id := by
  right
  left
  obtain ⟨existing, hmem, hid, -, heq⟩ | ⟨new, hnew, -, heq⟩ :=
    schedule_cases host retryQueue s.retryJobs input now random
  · simp only [heq, ← hid]
    exact List.mem_map_of_mem hmem
  · simp only [heq, ← hnew.id]
    exact List.mem_map_of_mem (mem_put.mpr (Or.inr rfl))

theorem dlq_id_injective {a b : String} (h : "dlq-" ++ a = "dlq-" ++ b) : a = b := by
  have hlist := congrArg String.toList h
  rw [String.toList_append, String.toList_append] at hlist
  exact String.toList_inj.mp (List.append_cancel_left hlist)

theorem kept_deadLetter (named : ∀ entry ∈ s.deadLetters, entry.id = "dlq-" ++ entry.requestId) {id : String}
    (hkept : Kept s id) (request : WebhookDeliveryRequest) (timeline : List DlqAttemptNote) (exhausted : Bool) (now : ℤ) :
    Kept (deadLetter options s request timeline exhausted now) id := by
  unfold deadLetter
  by_cases h : options.onDeadLetter = true
  · rw [if_pos h]
    apply hkept.imp_right
    apply Or.imp_right
    apply Or.imp_left
    intro hentry
    obtain ⟨entry, hmem, rfl⟩ := List.mem_map.mp hentry
    by_cases hid : entry.id = "dlq-" ++ request.id
    · rw [named entry hmem] at hid
      rw [dlq_id_injective hid]
      exact List.mem_map.mpr ⟨_, mem_put.mpr (Or.inr rfl), rfl⟩
    · exact List.mem_map_of_mem (mem_put.mpr (Or.inl ⟨hmem, hid⟩))
  · rwa [if_neg h]

theorem deadLettered_kept (h : options.onDeadLetter = true) (request : WebhookDeliveryRequest)
    (timeline : List DlqAttemptNote) (exhausted : Bool) (now : ℤ) :
    Kept (deadLetter options s request timeline exhausted now) request.id := by
  unfold deadLetter
  rw [if_pos h]
  right
  right
  left
  exact List.mem_map.mpr ⟨_, mem_put.mpr (Or.inr rfl), rfl⟩

theorem named_deadLetter (named : ∀ entry ∈ s.deadLetters, entry.id = "dlq-" ++ entry.requestId)
    (request : WebhookDeliveryRequest) (timeline : List DlqAttemptNote) (exhausted : Bool) (now : ℤ) :
    ∀ entry ∈ (deadLetter options s request timeline exhausted now).deadLetters,
      entry.id = "dlq-" ++ entry.requestId := by
  unfold deadLetter
  by_cases h : options.onDeadLetter = true
  · rw [if_pos h]
    intro entry hentry
    obtain ⟨hmem, -⟩ | rfl := mem_put.mp hentry
    · exact named entry hmem
    · rfl
  · rwa [if_neg h]

theorem deadLetter_rest (options : WebhookDeliveryWorkerOptions) (s : System) (request : WebhookDeliveryRequest)
    (timeline : List DlqAttemptNote) (exhausted : Bool) (now : ℤ) :
    (deadLetter options s request timeline exhausted now).accepted = s.accepted ∧
      (deadLetter options s request timeline exhausted now).stored = s.stored ∧
        (deadLetter options s request timeline exhausted now).worker = s.worker := by
  unfold deadLetter
  by_cases h : options.onDeadLetter = true
  · rw [if_pos h]
    exact ⟨rfl, rfl, rfl⟩
  · rw [if_neg h]
    exact ⟨rfl, rfl, rfl⟩

theorem Held.deliverWithRetries (held : Held options s) {request : WebhookDeliveryRequest} {attempt : ℕ}
    {timeline : List DlqAttemptNote} (hstage : s.worker.draining = some (.delivering request attempt timeline))
    {result : DeliveryResult} (h : options.onDeadLetter = true ∨
      (result.ok = true ∨ attempt ≠ attemptsOf options request ∧ isRetryableDeliveryStatus result.statusCode = true))
    (now : ℤ) (random : ℚ) :
    Held options (deliverWithRetries urls options s request attempt timeline result now random) := by
  have hothers : ∀ id ∈ s.accepted, Kept s id ∨ request.id = id := by
    intro id hid
    apply (held.present id hid).imp_right
    rintro ⟨other, hother, rfl⟩
    rw [Worker.inFlight, hstage, Option.some_inj] at hother
    rw [hother]
  unfold WebhookDeliveryWorker.deliverWithRetries
  simp only
  split_ifs with hok hretry
  · refine held_processQueue ?_ _ held.tries held.named
    intro id hid
    rw [Kept, List.mem_append, List.mem_singleton]
    obtain hkept | rfl := hothers id hid
    · unfold Kept at hkept
      tauto
    · tauto
  · split
    · rename_i retryQueue hqueue
      refine held_processQueue ?_ _ held.tries held.named
      intro id hid
      obtain hkept | rfl := hothers id hid
      · exact kept_scheduled hkept _ _ _ _ _
      · exact scheduled_kept urls.host retryQueue ⟨{ request with maxAttempts := _ }, _, _, _, _⟩ now random
    · refine ⟨?_, held.tries, held.named⟩
      intro id hid
      obtain hkept | heq := hothers id hid
      · exact Or.inl hkept
      · exact Or.inr ⟨request, rfl, heq⟩
  · have hhandler : options.onDeadLetter = true := by
      obtain h | h | ⟨hne, hstatus⟩ := h
      · exact h
      · exact absurd h hok
      · simp [hok, hne, hstatus] at hretry
    obtain ⟨haccepted, hstored, hworker⟩ := deadLetter_rest options s request
      (timeline ++ [{ attempt := attempt, statusCode := result.statusCode,
                      error := some (result.error.getD "Delivery failed"), at' := now }])
      (decide (attempt = attemptsOf options request)) now
    refine held_processQueue ?_ _ ?_ ?_
    · intro id hid
      rw [haccepted] at hid
      obtain hkept | rfl := hothers id hid
      · exact kept_deadLetter held.named hkept _ _ _ _
      · exact deadLettered_kept hhandler _ _ _ _
    · rw [hstored, hworker]
      exact held.tries
    · exact named_deadLetter held.named _ _ _ _

theorem Held.step (held : Held options s) (event : Event) (h : Survivable urls options s event) :
    Held options (step urls options s event) := by
  cases event with
  | enqueue request => exact held.enqueue h
  | start => exact held.start
  | stop => exact ⟨held.present, held.tries, held.named⟩
  | drain => exact held.drain
  | returned result now random =>
    simp only [WebhookDeliveryWorker.step]
    split
    · rename_i request attempt timeline hstage
      simp only [Survivable, hstage] at h
      exact held.deliverWithRetries hstage h now random
    · exact held
  | rejected =>
    simp only [WebhookDeliveryWorker.step]
    split
    · refine ⟨?_, held.tries, held.named⟩
      intro id hid
      obtain hkept | ⟨request, hrequest, rfl⟩ := held.present id hid
      · exact Or.inl hkept
      · exact Or.inl (h request hrequest)
    · exact held
  | delayOver =>
    simp only [WebhookDeliveryWorker.step]
    split
    · rename_i request attempt timeline hstage
      refine ⟨?_, held.tries, held.named⟩
      intro id hid
      apply (held.present id hid).imp_right
      rintro ⟨other, hother, rfl⟩
      rw [Worker.inFlight, hstage] at hother
      exact ⟨other, hother, rfl⟩
    · exact held
  | drained =>
    simp only [WebhookDeliveryWorker.step]
    split
    · rename_i hstage
      exact ⟨fun id hid => Or.inl (held.kept (Or.inr hstage) id hid), held.tries, held.named⟩
    · exact held
  | crash =>
    refine ⟨?_, ?_, held.named⟩
    · intro id hid
      obtain hkept | ⟨request, hrequest, rfl⟩ := held.present id hid
      · exact Or.inl hkept
      · exact Or.inl (h request hrequest)
    · intro request hrequest
      exact held.tries request (List.mem_append_left _ (by simpa [WebhookDeliveryWorker.step] using hrequest))

theorem deliveries_survive_crashes (events : List Event)
    (survivable : EachStep (step urls options) (Survivable urls options) {} events) :
    EachStep (step urls options) (fun s event => event = .crash → ∀ id ∈ s.accepted, Kept s id) {} events ∧
      ∀ id ∈ (run (step urls options) {} events).accepted, Present (run (step urls options) {} events) id := by
  have hkeeps : ∀ (s : System) (event : Event), Held options s → Survivable urls options s event →
      Held options (step urls options s event) := fun _ event held h => held.step event h
  have hstart : Held options {} := ⟨nofun, nofun, nofun⟩
  constructor
  · apply survivable.imp hkeeps _ hstart
    rintro s event held h rfl id hid
    obtain hkept | ⟨request, hrequest, rfl⟩ := held.present id hid
    · exact hkept
    · exact h request hrequest
  · exact (survivable.invariant hkeeps hstart).present

section Sample

instance (s : System) (id : String) : Decidable (Kept s id) :=
  inferInstanceAs (Decidable (_ ∨ _ ∨ _ ∨ _))

instance (s : System) (event : Event) : Decidable (Survivable urls options s event) :=
  match event with
  | .enqueue request =>
    inferInstanceAs (Decidable ((assertRequest urls request).isOk = true → 1 ≤ attemptsOf options request))
  | .returned result _ _ =>
    match h : s.worker.draining with
    | some (.delivering request attempt _) =>
      decidable_of_iff (options.onDeadLetter = true ∨ result.ok = true ∨
        attempt ≠ attemptsOf options request ∧ isRetryableDeliveryStatus result.statusCode = true)
        (by simp only [Survivable, h])
    | some (.delaying ..) | some .ending | none => isTrue (by simp only [Survivable, h])
  | .rejected | .crash => inferInstanceAs (Decidable (∀ request ∈ s.worker.inFlight, Kept s request.id))
  | .start | .stop | .drain | .delayOver | .drained => isTrue trivial

def sampleUrls : UrlParser := ⟨fun _ => some "rx.io", fun _ => some "https:"⟩

def sampleRequest (id : String) : WebhookDeliveryRequest where
  id := id
  url := "https://rx.io/hook"
  eventType := "run.failed"
  payload := .null

def sampleEvents : List Event :=
  [.enqueue (sampleRequest "a"), .enqueue (sampleRequest "b"),
    .enqueue { sampleRequest " " with maxAttempts := some 0 }, .start, .returned ⟨false, some 503, none⟩ 10 0,
    .returned ⟨true, some 200, none⟩ 20 0, .drained, .stop, .enqueue (sampleRequest "c"), .crash, .start]

theorem sample_deliveries_survive :
    EachStep (step sampleUrls { retryQueue := some {} })
        (fun s event => event = .crash → ∀ id ∈ s.accepted, Kept s id) {} sampleEvents ∧
      ∀ id ∈ (run (step sampleUrls { retryQueue := some {} }) {} sampleEvents).accepted,
        Present (run (step sampleUrls { retryQueue := some {} }) {} sampleEvents) id :=
  deliveries_survive_crashes sampleEvents (by decide +kernel)

theorem crash_loses_delivery : ¬∀ events,
    EachStep (step sampleUrls {}) (fun s event => event = .crash → ∀ id ∈ s.accepted, Kept s id) {} events := by
  -- the process dies while the first delivery is in flight
  intro h
  obtain ⟨-, -, hcrash, -⟩ := h [.enqueue (sampleRequest "a"), .start, .crash]
  have hkept := hcrash rfl "a"
  revert hkept
  decide +kernel

end Sample

end CrashLab.WebhookDeliveryWorker
