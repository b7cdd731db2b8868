import CrashLab.WebhookDlq

namespace CrashLab.WebhookRetryQueue

open KeyedLists Sorting WebhookDelivery WebhookDlq

def webhookRetryMaxAttempts : ℕ := 5

def webhookRetryPerTargetConcurrency : ℕ := 2

def webhookRetryMaxJobsPerTick : ℕ := 20

inductive RetryJobStatus where
  | pending
  | inFlight
deriving DecidableEq, Repr

structure RetryJob where
  id : String
  request : WebhookDeliveryRequest
  target : String
  attempt : ℕ
  maxAttempts : ℕ
  status : RetryJobStatus
  nextAttemptAt : ℤ
  leaseExpiresAt : Option ℤ
  createdAt : ℤ
  timeline : List DlqAttemptNote

inductive RetryTickOutcomeKind where
  | delivered
  | retryScheduled
  | deadLettered
deriving DecidableEq, Repr

structure RetryTickOutcome where
  jobId : String
  outcome : RetryTickOutcomeKind
  attempt : ℕ
  statusCode : Option ℕ
  error : Option String := none
  nextAttemptAt : Option ℤ := none
deriving DecidableEq, Repr

structure ScheduleRetryInput where
  request : WebhookDeliveryRequest
  attemptsMade : ℕ
  timeline : List DlqAttemptNote := []
  immediate : Bool := false
  createdAt : Option ℤ := none

structure WebhookRetryQueueOptions where
  backoff : BackoffPolicy := ⟨30000, 30 * 60000⟩
  maxAttempts : ℕ := webhookRetryMaxAttempts
  perTargetConcurrency : ℕ := webhookRetryPerTargetConcurrency
  maxJobsPerTick : ℕ := webhookRetryMaxJobsPerTick
  leaseMs : ℤ := 60000
deriving DecidableEq, Repr

variable (urlHost : String → Option String) (options : WebhookRetryQueueOptions)

def retryTargetOf (url : String) : String := hostOf urlHost url

def isLeased (job : RetryJob) (nowMs : ℤ) : Bool :=
  job.status = .inFlight ∧ ∃ lease ∈ job.leaseExpiresAt, nowMs < lease

def schedule (jobs : List RetryJob) (input : ScheduleRetryInput) (nowMs : ℤ) (random : ℚ) :
    List RetryJob × RetryJob :=
  let existing := get RetryJob.id input.request.id jobs
  let delayMs := if input.immediate then 0 else computeBackoffMs input.attemptsMade options.backoff random
  let job : RetryJob :=
    { id := input.request.id
      request := input.request
      target := retryTargetOf urlHost input.request.url
      attempt := input.attemptsMade
      maxAttempts := max (input.request.maxAttempts.getD options.maxAttempts) (input.attemptsMade + 1)
      status := .pending
      nextAttemptAt := nowMs + delayMs
      leaseExpiresAt := none
      createdAt := ((existing.map RetryJob.createdAt).or input.createdAt).getD nowMs
      timeline := (existing.map RetryJob.timeline).getD [] ++ input.timeline }
  match existing.filter fun existing => isLeased existing nowMs with
  | some existing => (jobs, existing)
  | none => (put RetryJob.id job jobs, job)

section RunTick

structure Claims where
  inFlightByTarget : String → ℕ
  claimed : List RetryJob := []
  throttled : ℕ := 0

def inFlightByTarget (nowMs : ℤ) (jobs : List RetryJob) : String → ℕ :=
  jobs.foldl
    (fun counts job => if isLeased job nowMs then Function.update counts job.target (counts job.target + 1) else counts)
    fun _ => 0

def due (nowMs : ℤ) (jobs : List RetryJob) : List RetryJob :=
  sortByKey RetryJob.nextAttemptAt (jobs.filter fun job => !isLeased job nowMs && decide (job.nextAttemptAt ≤ nowMs))

def claim (nowMs : ℤ) (job : RetryJob) : RetryJob :=
  { job with status := .inFlight, attempt := job.attempt + 1, leaseExpiresAt := some (nowMs + options.leaseMs) }

def claimLoop (nowMs : ℤ) : Claims → List RetryJob → Claims
  | acc, [] => acc
  | acc, job :: due =>
    if options.maxJobsPerTick ≤ acc.claimed.length then acc
    else
      let active := acc.inFlightByTarget job.target
      if options.perTargetConcurrency ≤ active then
        claimLoop nowMs { acc with throttled := acc.throttled + 1 } due
      else
        claimLoop nowMs
          { acc with
            inFlightByTarget := Function.update acc.inFlightByTarget job.target (active + 1)
            claimed := acc.claimed ++ [claim options nowMs job] }
          due

def claims (jobs : List RetryJob) (nowMs : ℤ) : Claims :=
  claimLoop options nowMs { inFlightByTarget := inFlightByTarget nowMs jobs } (due nowMs jobs)

/-- `runTick` up to where its attempts wait for their deliveries: the jobs it saves and those it has claimed. -/
def runTick (jobs : List RetryJob) (nowMs : ℤ) : List RetryJob × List RetryJob :=
  let claimed := (claims options jobs nowMs).claimed
  if 0 < claimed.length then
    (jobs.filter (fun job => job.id ∉ claimed.map RetryJob.id) ++ claimed, claimed)
  else (jobs, claimed)

end RunTick

/-- `attempt` from where its delivery comes back: the jobs it saves, its outcome, and the entry that it hands to the
dead-letter queue. `job` is the copy it was claimed with. -/
def attempt (jobs : List RetryJob) (job : RetryJob) (result : DeliveryResult) (now : ℤ) (random : ℚ) :
    List RetryJob × RetryTickOutcome × Option DlqEntry :=
  if result.ok then
    (remove RetryJob.id job.id jobs,
      { jobId := job.id, outcome := .delivered, attempt := job.attempt, statusCode := result.statusCode }, none)
  else
    let timeline := job.timeline ++
      [{ attempt := job.attempt
         statusCode := result.statusCode
         error := some (result.error.getD "Delivery failed")
         at' := now }]
    let retryable := isRetryableDeliveryStatus result.statusCode
    if retryable ∧ job.attempt < job.maxAttempts then
      let nextAttemptAt := now + computeBackoffMs job.attempt options.backoff random
      (replace RetryJob.id
          { job with
            status := .pending, leaseExpiresAt := none, nextAttemptAt := nextAttemptAt, timeline := timeline }
          jobs,
        { jobId := job.id
          outcome := .retryScheduled
          attempt := job.attempt
          statusCode := result.statusCode
          error := result.error
          nextAttemptAt := some nextAttemptAt },
        none)
    else
      (remove RetryJob.id job.id jobs,
        { jobId := job.id
          outcome := .deadLettered
          attempt := job.attempt
          statusCode := result.statusCode
          error := result.error },
        some (createDlqEntry job.request timeline (if retryable then .retriesExhausted else .nonRetryable) now))

/-- A call of `deliver` for a claimed job, and whether its attempt still waits for it. -/
structure DeliverCall where
  job : RetryJob
  waiting : Bool

def DeliverCall.leave (call : DeliverCall) : DeliverCall := { call with waiting := false }

/-- What the gateway holds, the deliveries that the ticks have started, in their order, and what came of those that
came back. -/
structure State where
  jobs : List RetryJob := []
  calls : List DeliverCall := []
  outcomes : List RetryTickOutcome := []
  deadLetters : List DlqEntry := []

/-- What can happen between two places where the code waits. With `crash` the worker of an attempt dies. -/
inductive Event where
  | schedule (input : ScheduleRetryInput) (nowMs : ℤ) (random : ℚ)
  | runTick (nowMs : ℤ)
  | settle (number : ℕ) (result : DeliveryResult) (now : ℤ) (random : ℚ)
  | crash (number : ℕ)

def settle (s : State) (number : ℕ) (result : DeliveryResult) (now : ℤ) (random : ℚ) : State :=
  match s.calls[number]? with
  | some ⟨job, true⟩ =>
    let (jobs, outcome, deadLetter) := attempt options s.jobs job result now random
    { jobs := jobs
      calls := s.calls.modify number DeliverCall.leave
      outcomes := s.outcomes ++ [outcome]
      deadLetters := s.deadLetters ++ deadLetter.toList }
  | _ => s

def step (s : State) : Event → State
  | .schedule input nowMs random => { s with jobs := (schedule urlHost options s.jobs input nowMs random).1 }
  | .runTick nowMs =>
    let (jobs, claimed) := runTick options s.jobs nowMs
    { s with jobs := jobs, calls := s.calls ++ claimed.map fun job => ⟨job, true⟩ }
  | .settle number result now random => settle options s number result now random
  | .crash number => { s with calls := s.calls.modify number DeliverCall.leave }

end CrashLab.WebhookRetryQueue

namespace CrashLab.WebhookDeliveryWorker

open KeyedLists WebhookDelivery WebhookDlq WebhookRetryQueue

def isSpace (c : Char) : Bool :=
  (0x09 ≤ c.toNat && c.toNat ≤ 0x0D) || (0x2000 ≤ c.toNat && c.toNat ≤ 0x200A) ||
    [0x20, 0xA0, 0x1680, 0x2028, 0x2029, 0x202F, 0x205F, 0x3000, 0xFEFF].contains c.toNat

def isBlank (text : String) : Bool := text.toList.all isSpace

/-- The URL parser of the platform: the host and the protocol of an address. -/
structure UrlParser where
  host : String → Option String
  protocol : String → Option String

structure WebhookDeliveryWorkerOptions where
  maxAttempts : ℕ := 3
  timeoutMs : ℕ := 5000
  retryQueue : Option WebhookRetryQueueOptions := none
  onDeadLetter : Bool := true
deriving DecidableEq, Repr

/-- Where `drain` is when it waits: for a delivery, for the delay before the next attempt, or, at its end, to let go
of the drain. -/
inductive Stage where
  | delivering (request : WebhookDeliveryRequest) (attempt : ℕ) (timeline : List DlqAttemptNote)
  | delaying (request : WebhookDeliveryRequest) (attempt : ℕ) (timeline : List DlqAttemptNote)
  | ending

structure Worker where
  queue : List WebhookDeliveryRequest := []
  active : Bool := false
  draining : Option Stage := none

/-- A worker over its stores; `accepted` and `delivered` are the ids it took and those that their receivers have. -/
structure System where
  worker : Worker := {}
  stored : List WebhookDeliveryRequest := []
  retryJobs : List RetryJob := []
  deadLetters : List DlqEntry := []
  accepted : List String := []
  delivered : List String := []

variable (urls : UrlParser) (options : WebhookDeliveryWorkerOptions)

def assertRequest (request : WebhookDeliveryRequest) : Except String Unit :=
  if isBlank request.id then .error "Webhook delivery request requires an id"
  else if ¬(urls.protocol request.url = some "http:" ∨ urls.protocol request.url = some "https:") then
    .error ("Invalid webhook URL: " ++ request.url)
  else if isBlank request.eventType then .error "Webhook delivery request requires an event type"
  else .ok ()

def attemptsOf (request : WebhookDeliveryRequest) : ℕ := request.maxAttempts.getD options.maxAttempts

/-- The loop of `processQueue` from one of its heads to where it waits next. A request without attempts is passed
over. -/
def processQueue (s : System) : List WebhookDeliveryRequest → System
  | [] => { s with worker := { s.worker with queue := [], draining := some .ending } }
  | request :: rest =>
    if s.worker.active then
      let taken := { s with stored := remove WebhookDeliveryRequest.id request.id s.stored }
      if 1 ≤ attemptsOf options request then
        { taken with worker := { s.worker with queue := rest, draining := some (.delivering request 1 []) } }
      else processQueue taken rest
    else { s with worker := { s.worker with queue := request :: rest, draining := some .ending } }

def drain (s : System) : System :=
  match s.worker.draining with
  | some _ => s
  | none => processQueue options s s.worker.queue

def enqueue (s : System) (request : WebhookDeliveryRequest) : System :=
  match assertRequest urls request with
  | .error _ => s
  | .ok _ =>
    let enriched := { request with timeoutMs := some (request.timeoutMs.getD options.timeoutMs) }
    let queued :=
      { s with
        worker := { s.worker with queue := s.worker.queue ++ [enriched] }
        stored := s.stored ++ [enriched]
        accepted := s.accepted ++ [request.id] }
    if s.worker.active then drain options queued else queued

def recoverPendingDeliveries (s : System) : System :=
  let queue := s.stored.foldl
    (fun queue request => if queue.any (fun q => q.id = request.id) then queue else queue ++ [request]) s.worker.queue
  { s with worker := { s.worker with queue := queue } }

def start (s : System) : System :=
  if s.worker.active then s
  else
    let recovered := recoverPendingDeliveries s
    drain options { recovered with worker := { recovered.worker with active := true } }

def stop (s : System) : System := { s with worker := { s.worker with active := false } }

def deadLetter (s : System) (request : WebhookDeliveryRequest) (timeline : List DlqAttemptNote) (exhausted : Bool)
    (now : ℤ) : System :=
  if options.onDeadLetter then
    let entry := createDlqEntry request timeline (if exhausted then .retriesExhausted else .nonRetryable) now
    { s with deadLetters := put DlqEntry.id entry s.deadLetters }
  else s

/-- The loop of `deliverWithRetries` from where a delivery comes back. -/
def deliverWithRetries (s : System) (request : WebhookDeliveryRequest) (attempt : ℕ) (timeline : List DlqAttemptNote)
    (result : DeliveryResult) (now : ℤ) (random : ℚ) : System :=
  let maxAttempts := attemptsOf options request
  let finalAttempt : Bool := attempt = maxAttempts
  let willRetry := !result.ok && !finalAttempt && isRetryableDeliveryStatus result.statusCode
  if result.ok then
    let done := { s with delivered := s.delivered ++ [request.id] }
    processQueue options done done.worker.queue
  else
    let timeline := timeline ++
      [{ attempt := attempt
         statusCode := result.statusCode
         error := some (result.error.getD "Delivery failed")
         at' := now }]
    if willRetry then
      match options.retryQueue with
      | some retryQueue =>
        let input : ScheduleRetryInput :=
          { request := { request with maxAttempts := some maxAttempts }
            attemptsMade := attempt
            timeline := timeline
            createdAt := timeline.head?.map (·.at') }
        let done := { s with retryJobs := (schedule urls.host retryQueue s.retryJobs input now random).1 }
        processQueue options done done.worker.queue
      | none => { s with worker := { s.worker with draining := some (.delaying request attempt timeline) } }
    else
      let done := deadLetter options s request timeline (attempt = maxAttempts) now
      processQueue options done done.worker.queue

/-- What can happen between two places where the worker waits. With `rejected` a delivery throws; with `crash` the
process is lost, and what the worker had in memory with it. -/
inductive Event where
  | enqueue (request : WebhookDeliveryRequest)
  | start
  | stop
  | drain
  | returned (result : DeliveryResult) (now : ℤ) (random : ℚ)
  | rejected
  | delayOver
  | drained
  | crash

def step (s : System) : Event → System
  | .enqueue request => enqueue urls options s request
  | .start => start options s
  | .stop => stop s
  | .drain => drain options s
  | .returned result now random =>
    match s.worker.draining with
    | some (.delivering request attempt timeline) =>
      deliverWithRetries urls options s request attempt timeline result now random
    | _ => s
  | .rejected =>
    match s.worker.draining with
    | some (.delivering ..) => { s with worker := { s.worker with draining := some .ending } }
    | _ => s
  | .delayOver =>
    match s.worker.draining with
    | some (.delaying request attempt timeline) =>
      { s with worker := { s.worker with draining := some (.delivering request (attempt + 1) timeline) } }
    | _ => s
  | .drained =>
    match s.worker.draining with
    | some .ending => { s with worker := { s.worker with draining := none } }
    | _ => s
  | .crash => { s with worker := {} }

end CrashLab.WebhookDeliveryWorker
