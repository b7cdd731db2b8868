import Mathlib.Data.Rat.Floor
import CrashLab.KeyedLists
import CrashLab.Redact
import CrashLab.Sorting

namespace CrashLab.WebhookDelivery

open Redact

structure WebhookDeliveryRequest where
  id : String
  url : String
  eventType : String
  payload : JsonValue
  headers : Option (List (String × String)) := none
  maxAttempts : Option ℕ := none
  timeoutMs : Option ℕ := none

/-- What a delivery comes back with; one that throws counts as not ok, with the text of what was thrown. -/
structure DeliveryResult where
  ok : Bool
  statusCode : Option ℕ := none
  error : Option String := none
deriving DecidableEq, Repr

def isRetryableDeliveryStatus (statusCode : Option ℕ) : Bool :=
  match statusCode with
  | none => true
  | some code => code = 429 || decide (500 ≤ code)

/-- The host of an address in lower case, or the text itself where it is no address. `urlHost` is the URL parser
of the platform. -/
def hostOf (urlHost : String → Option String) (url : String) : String :=
  match urlHost url with
  | some host => String.ofList (host.toList.map Char.toLower)
  | none => url

structure BackoffPolicy where
  baseMs : ℕ
  maxMs : ℕ
deriving DecidableEq, Repr

def computeBackoffMs (attempt : ℕ) (policy : BackoffPolicy) (random : ℚ) : ℤ :=
  let exponent := attempt - 1
  let window := min policy.maxMs (policy.baseMs * 2 ^ exponent)
  let half : ℚ := window / 2
  round (half + random * half)

end CrashLab.WebhookDelivery

namespace CrashLab.WebhookDlq

open KeyedLists Redact Sorting WebhookDelivery

def dlqRetentionMs : ℤ := 30 * 24 * 60 * 60 * 1000

def dlqReplayConcurrency : ℕ := 5

def dlqParkAfterRounds : ℕ := 3

def dlqDrainPerTarget : ℕ := 2

def dlqDrainMaxPerTick : ℕ := 10

inductive DlqFailureReason where
  | retriesExhausted
  | nonRetryable
deriving DecidableEq, Repr

inductive DlqEntryStatus where
  | pending
  | parked
deriving DecidableEq, Repr

/-- Points in time are in milliseconds, in place of their texts. -/
structure DlqAttemptNote where
  attempt : ℕ
  statusCode : Option ℕ := none
  error : Option String := none
  at' : ℤ
deriving DecidableEq, Repr

structure DlqEntry where
  id : String
  requestId : String
  endpoint : String
  eventType : String
  payload : JsonValue
  headers : Option (List (String × String)) := none
  reason : DlqFailureReason
  errorTimeline : List DlqAttemptNote
  firstFailedAt : ℤ
  deadLetteredAt : ℤ
  replayAttempts : ℕ
  status : Option DlqEntryStatus := none
  nextDrainAt : Option ℤ := none
  parkedAt : Option ℤ := none

def dlqEntryStatus (entry : DlqEntry) : DlqEntryStatus := entry.status.getD .pending

def createDlqEntry (request : WebhookDeliveryRequest) (timeline : List DlqAttemptNote) (reason : DlqFailureReason)
    (now : ℤ) : DlqEntry where
  id := "dlq-" ++ request.id
  requestId := request.id
  endpoint := request.url
  eventType := request.eventType
  payload := request.payload
  headers := request.headers
  reason := reason
  errorTimeline := timeline
  firstFailedAt := (timeline.head?.map (·.at')).getD now
  deadLetteredAt := now
  replayAttempts := 0

def deriveReplayKey (entryId : String) (attempt : ℕ) : String := entryId ++ "#replay-" ++ toString attempt

def sweepExpiredEntries (entries : List DlqEntry) (now retentionMs : ℤ) : List DlqEntry × List DlqEntry :=
  entries.partition fun entry => now - entry.deadLetteredAt ≤ retentionMs

structure DeadLetterQueueOptions where
  retentionMs : ℤ := dlqRetentionMs
  concurrency : ℕ := dlqReplayConcurrency
  parkAfterRounds : ℕ := dlqParkAfterRounds
  drainBackoff : BackoffPolicy := ⟨15 * 60000, 6 * 60 * 60000⟩
deriving DecidableEq, Repr

inductive ReplayResult where
  | replayed (entryId idempotencyKey : String)
  | failed (entryId idempotencyKey error : String)
  | locked (entryId : String)
  | missing (entryId : String)
deriving DecidableEq, Repr

inductive Progress (entryId : String) where
  | waiting (entry : { entry : DlqEntry // entry.id = entryId })
  | returned (result : ReplayResult)
  | threw

structure Replay where
  entryId : String
  progress : Progress entryId

namespace Replay

def waits : Replay → Bool
  | ⟨_, .waiting _⟩ => true
  | _ => false

def hasThrown : Replay → Bool
  | ⟨_, .threw⟩ => true
  | _ => false

def result : Replay → Option ReplayResult
  | ⟨_, .returned result⟩ => some result
  | _ => none

end Replay

structure DlqDrainOptions where
  perTarget : ℕ := dlqDrainPerTarget
  maxEntries : ℕ := dlqDrainMaxPerTick
deriving DecidableEq, Repr

/-- A call of `replayBatch`: the ids after the current slice, the replays of the slice, by their numbers, and the
results of the slices before it. Only a drain looks at the results. -/
structure Batch where
  drains : Bool
  remaining : List String
  slice : List ℕ
  results : List ReplayResult
  finished : Bool := false
deriving DecidableEq, Repr

structure DeadLetterQueue where
  entries : List DlqEntry := []
  inFlight : List String := []
  replays : List Replay := []
  batches : List Batch := []

namespace DeadLetterQueue

variable (options : DeadLetterQueueOptions)

def add (queue : DeadLetterQueue) (entry : DlqEntry) : DeadLetterQueue :=
  { queue with entries := put DlqEntry.id entry queue.entries }

def sweep (queue : DeadLetterQueue) (now : ℤ) : DeadLetterQueue :=
  let (kept, evicted) := sweepExpiredEntries queue.entries now options.retentionMs
  if 0 < evicted.length then { queue with entries := kept } else queue

def evict (queue : DeadLetterQueue) (entryId : String) : DeadLetterQueue :=
  let next := remove DlqEntry.id entryId queue.entries
  if next.length = queue.entries.length then queue else { queue with entries := next }

/-- `replay` up to where it waits for the delivery. -/
def replay (queue : DeadLetterQueue) (entryId : String) : DeadLetterQueue :=
  if entryId ∈ queue.inFlight then
    { queue with replays := queue.replays ++ [⟨entryId, .returned (.locked entryId)⟩] }
  else
    match found : get DlqEntry.id entryId queue.entries with
    | none => { queue with replays := queue.replays ++ [⟨entryId, .returned (.missing entryId)⟩] }
    | some entry =>
      { queue with
        inFlight := queue.inFlight ++ [entryId]
        replays := queue.replays ++ [⟨entryId, .waiting ⟨entry, (mem_of_get found).2⟩⟩] }

def failedReplay (entry : DlqEntry) (outcome : DeliveryResult) (now : ℤ) : DlqEntry :=
  { entry with
    replayAttempts := entry.replayAttempts + 1
    errorTimeline := entry.errorTimeline ++
      [{ attempt := entry.errorTimeline.length + 1
         statusCode := outcome.statusCode
         error := some (outcome.error.getD "Replay failed")
         at' := now }] }

/-- `replay` from where its delivery comes back; `none` is a delivery that throws. -/
def settle (queue : DeadLetterQueue) (number : ℕ) (outcome : Option DeliveryResult) (now : ℤ) : DeadLetterQueue :=
  match queue.replays[number]? with
  | some ⟨entryId, .waiting ⟨entry, _⟩⟩ =>
    let idempotencyKey := deriveReplayKey entry.id (entry.replayAttempts + 1)
    let finish (entries : List DlqEntry) (progress : Progress entryId) : DeadLetterQueue :=
      { queue with
        entries := entries
        inFlight := queue.inFlight.filter (· ≠ entryId)
        replays := queue.replays.set number ⟨entryId, progress⟩ }
    match outcome with
    | none => finish queue.entries .threw
    | some outcome =>
      if outcome.ok then
        finish (remove DlqEntry.id entryId queue.entries) (.returned (.replayed entryId idempotencyKey))
      else
        finish
          (queue.entries.map fun candidate =>
            if candidate.id = entryId then failedReplay entry outcome now else candidate)
          (.returned (.failed entryId idempotencyKey (outcome.error.getD "Replay failed")))
  | _ => queue

def startSlice (queue : DeadLetterQueue) (remaining : List String) : DeadLetterQueue × List ℕ :=
  let slice := remaining.take options.concurrency
  (slice.foldl replay queue, (List.range slice.length).map (queue.replays.length + ·))

def startBatch (queue : DeadLetterQueue) (drains : Bool) (entryIds : List String) : DeadLetterQueue :=
  let (started, slice) := startSlice options queue entryIds
  { started with batches := queue.batches ++ [⟨drains, entryIds.drop options.concurrency, slice, [], false⟩] }

variable (urlHost : String → Option String)

structure Selection where
  perHost : String → ℕ
  selected : List String
  deferred : ℕ

def select (limits : DlqDrainOptions) : Selection → List DlqEntry → Selection
  | acc, [] => acc
  | acc, entry :: due =>
    if limits.maxEntries ≤ acc.selected.length then acc
    else
      let host := hostOf urlHost entry.endpoint
      if limits.perTarget ≤ acc.perHost host then select limits { acc with deferred := acc.deferred + 1 } due
      else
        select limits
          { acc with
            perHost := Function.update acc.perHost host (acc.perHost host + 1)
            selected := acc.selected ++ [entry.id] }
          due

def dueEntries (queue : DeadLetterQueue) (now : ℤ) : List DlqEntry :=
  sortByKey (fun entry => entry.nextDrainAt.getD entry.deadLetteredAt)
    (queue.entries.filter fun entry =>
      dlqEntryStatus entry = .pending ∧ entry.reason = .retriesExhausted ∧ entry.id ∉ queue.inFlight ∧
        entry.nextDrainAt.getD entry.deadLetteredAt ≤ now)

/-- `drain` up to where it waits for its first slice. -/
def drain (queue : DeadLetterQueue) (limits : DlqDrainOptions) (now : ℤ) : DeadLetterQueue :=
  let selection := select urlHost limits ⟨fun _ => 0, [], 0⟩ (queue.dueEntries now)
  startBatch options queue true selection.selected

def replaceEntry (queue : DeadLetterQueue) (updated : DlqEntry) : DeadLetterQueue :=
  { queue with entries := KeyedLists.replace DlqEntry.id updated queue.entries }

def park (queue : DeadLetterQueue) (result : ReplayResult) (now : ℤ) (random : ℚ) : DeadLetterQueue :=
  match result with
  | .failed entryId _ _ =>
    match get DlqEntry.id entryId queue.entries with
    | none => queue
    | some entry =>
      if options.parkAfterRounds ≤ entry.replayAttempts then
        queue.replaceEntry { entry with status := some .parked, parkedAt := some now, nextDrainAt := none }
      else
        let delay := computeBackoffMs entry.replayAttempts options.drainBackoff random
        queue.replaceEntry { entry with nextDrainAt := some (now + delay) }
  | _ => queue

def parkAll (queue : DeadLetterQueue) (results : List ReplayResult) (now : ℤ) (random : ℕ → ℚ) : DeadLetterQueue :=
  results.zipIdx.foldl (fun queue result => park options queue result.1 now (random result.2)) queue

/-- A batch goes on once its slice is back: with the next slice, or at the end of `replayBatch`; a delivery that
threw ends it. -/
def resume (queue : DeadLetterQueue) (number : ℕ) (now : ℤ) (random : ℕ → ℚ) : DeadLetterQueue :=
  match queue.batches[number]? with
  | some ⟨drains, remaining, slice, results, false⟩ =>
    let back := slice.filterMap fun replay => queue.replays[replay]?
    if back.any Replay.hasThrown then
      { queue with batches := queue.batches.set number ⟨drains, remaining, slice, results, true⟩ }
    else if back.any Replay.waits then queue
    else
      let results := results ++ back.filterMap Replay.result
      if remaining = [] then
        let done := { queue with batches := queue.batches.set number ⟨drains, [], slice, results, true⟩ }
        if drains then parkAll options done results now random else done
      else
        let (started, slice) := startSlice options queue remaining
        { started with
          batches :=
            queue.batches.set number ⟨drains, remaining.drop options.concurrency, slice, results, false⟩ }
  | _ => queue

inductive Event where
  | add (entry : DlqEntry)
  | sweep (now : ℤ)
  | evict (entryId : String)
  | replay (entryId : String)
  | settle (number : ℕ) (outcome : Option DeliveryResult) (now : ℤ)
  | replayBatch (entryIds : List String)
  | drain (limits : DlqDrainOptions) (now : ℤ)
  | resume (number : ℕ) (now : ℤ) (random : ℕ → ℚ)

def step (queue : DeadLetterQueue) : Event → DeadLetterQueue
  | .add entry => queue.add entry
  | .sweep now => queue.sweep options now
  | .evict entryId => queue.evict entryId
  | .replay entryId => queue.replay entryId
  | .settle number outcome now => queue.settle number outcome now
  | .replayBatch entryIds => queue.startBatch options false entryIds
  | .drain limits now => queue.drain options urlHost limits now
  | .resume number now random => queue.resume options number now random

end DeadLetterQueue

end CrashLab.WebhookDlq
