import Mathlib.Tactic
import CrashLab.Histories
import CrashLab.JsStrings

namespace CrashLab.Alerts

open JsStrings

section Policies

inductive AlertSeverity where
  | critical
  | error
  | warning
  | info
deriving DecidableEq, Repr

def AlertSeverity.name : AlertSeverity → JsString
  | critical => ofString "critical"
  | error => ofString "error"
  | warning => ofString "warning"
  | info => ofString "info"

inductive AlertChannel where
  | pagerduty
  | slack
  | email
deriving DecidableEq, Repr

inductive DedupKeyField where
  | source
  | severity
  | fingerprint
deriving DecidableEq, Repr

structure EscalationStep where
  afterMinutes : ℕ
  channels : List AlertChannel
deriving DecidableEq, Repr

structure AlertRoute where
  id : JsString
  matchSource : JsString
  matchSeverity : List AlertSeverity
  channels : List AlertChannel
  dedupKey : List DedupKeyField
  dedupWindowMinutes : Option ℕ := none
  ackSlaMinutes : Option ℕ := none
  respectQuietHours : Bool
  escalation : List EscalationStep

structure ClockTime where
  hours : Fin 24
  minutes : Fin 60

structure QuietHours where
  start : ClockTime
  stop : ClockTime

structure AlertPolicy where
  dedupWindowMinutes : ℕ
  ackSlaMinutes : ℕ
  quietHours : Option QuietHours := none
  routes : List AlertRoute

structure AlertEvent where
  source : JsString
  severity : AlertSeverity
  fingerprint : JsString
  summary : JsString

structure RoutingDecision where
  route : AlertRoute
  dedupKey : JsString
  dedupWindowMinutes : ℕ
  ackSlaMinutes : ℕ
  held : Bool

end Policies

section Routing

def minuteMs : ℤ := 60000

def AlertEvent.field (event : AlertEvent) : DedupKeyField → JsString
  | .source => event.source
  | .severity => event.severity.name
  | .fingerprint => event.fingerprint

def buildDedupKey (route : AlertRoute) (event : AlertEvent) : JsString :=
  (ofString ":").intercalate (route.id :: route.dedupKey.map event.field)

def minutesOfDay (time : ClockTime) : ℕ := time.hours.val * 60 + time.minutes.val

def currentMinute (now : ℤ) : ℕ := (now / minuteMs % 1440).toNat

def isWithinQuietHours (policy : AlertPolicy) (now : ℤ) : Bool :=
  match policy.quietHours with
  | none => false
  | some quiet =>
    let start := minutesOfDay quiet.start
    let stop := minutesOfDay quiet.stop
    let current := currentMinute now
    if start = stop then false
    else if start < stop then start ≤ current && current < stop
    else start ≤ current || current < stop

/-- The first route that matches; a policy without a route for the event throws. -/
def resolveRoute (policy : AlertPolicy) (event : AlertEvent) (now : ℤ) : Option RoutingDecision :=
  (policy.routes.find? fun candidate =>
    (candidate.matchSource = ofString "*" || candidate.matchSource = event.source) &&
      candidate.matchSeverity.contains event.severity).map fun route =>
    { route
      dedupKey := buildDedupKey route event
      dedupWindowMinutes := route.dedupWindowMinutes.getD policy.dedupWindowMinutes
      ackSlaMinutes := route.ackSlaMinutes.getD policy.ackSlaMinutes
      held := route.respectQuietHours && isWithinQuietHours policy now }

end Routing

section Incidents

inductive IncidentStatus where
  | triggered
  | acknowledged
  | resolved
deriving DecidableEq, Repr

inductive RemoteStatus where
  | acknowledged
  | resolved
deriving DecidableEq, Repr

def RemoteStatus.status : RemoteStatus → IncidentStatus
  | acknowledged => .acknowledged
  | resolved => .resolved

inductive LifecycleAction where
  | trigger
  | escalate
  | acknowledge
  | resolve
deriving DecidableEq, Repr

inductive LifecycleOrigin where
  | dashboard
  | pagerduty
  | auto
deriving DecidableEq, Repr

/-- Instants are in milliseconds; an id is the number of the incident in the order of creation. -/
structure Incident where
  id : ℕ
  dedupKey : JsString
  routeId : JsString
  source : JsString
  severity : AlertSeverity
  fingerprint : JsString
  summary : JsString
  status : IncidentStatus
  occurrences : ℕ
  createdAt : ℤ
  lastSeenAt : ℤ
  notifiedAt : Option ℤ
  acknowledgedAt : Option ℤ := none
  acknowledgedBy : Option JsString := none
  resolvedAt : Option ℤ := none
  resolvedBy : Option JsString := none
  resolutionNote : Option JsString := none
  escalationLevel : ℕ
deriving DecidableEq

structure AlertNotification where
  channel : AlertChannel
  action : LifecycleAction
  incident : Incident

inductive IngestOutcome where
  | created
  | deduplicated
deriving DecidableEq, Repr

structure IngestResult where
  incident : Incident
  outcome : IngestOutcome

abbrev Incidents := List Incident

def findOpen (incidents : Incidents) (dedupKey : JsString) : Option Incident :=
  incidents.find? fun incident => incident.dedupKey = dedupKey && incident.status ≠ .resolved

def routeOf (policy : AlertPolicy) (routeId : JsString) : Option AlertRoute :=
  policy.routes.find? fun candidate => candidate.id = routeId

end Incidents

section Calls

inductive After where
  | returns
  | nextIncident (now : ℤ)
  | escalation (now elapsed : ℤ) (route : AlertRoute)

/-- A call that awaits the send of the first channel left; `snapshot` is the incident as that send has it. -/
structure Waiting where
  incident : ℕ
  left : List AlertChannel
  action : LifecycleAction
  snapshot : Incident
  sent : List AlertNotification
  after : After

inductive Call where
  | waiting (waiting : Waiting)
  | returned (sent : List AlertNotification)
  | threw

structure Fired where
  incident : ℕ
  step : ℕ
  status : IncidentStatus
deriving DecidableEq, Repr

structure World where
  incidents : Incidents := []
  calls : List Call := []
  fired : List Fired := []

def World.update (world : World) (id : ℕ) (change : Incident → Incident) : World :=
  { world with incidents := world.incidents.modify id change }

def World.open (world : World) (call : Call) : World := { world with calls := world.calls ++ [call] }

def notify (channels : List AlertChannel) (action : LifecycleAction) (incident : Incident)
    (sent : List AlertNotification) (after : After) : Waiting where
  incident := incident.id
  left := channels.eraseDups
  action
  snapshot := incident
  sent
  after

end Calls

section Lifecycle

variable (policy : AlertPolicy)

def ingest (world : World) (event : AlertEvent) (now : ℤ) : World × Option IngestResult :=
  match resolveRoute policy event now with
  | none => (world.open .threw, none)
  | some decision =>
    match (findOpen world.incidents decision.dedupKey).filter fun incident =>
        now - incident.lastSeenAt < decision.dedupWindowMinutes * minuteMs with
    | some incident =>
      let seen := { incident with occurrences := incident.occurrences + 1, lastSeenAt := now }
      ((world.update incident.id fun _ => seen).open (.returned []), some ⟨seen, .deduplicated⟩)
    | none =>
      let incident : Incident :=
        { id := world.incidents.length
          dedupKey := decision.dedupKey
          routeId := decision.route.id
          source := event.source
          severity := event.severity
          fingerprint := event.fingerprint
          summary := event.summary
          status := .triggered
          occurrences := 1
          createdAt := now
          lastSeenAt := now
          notifiedAt := if decision.held then none else some now
          escalationLevel := 0 }
      let call := if decision.held then .returned []
        else .waiting (notify decision.route.channels .trigger incident [] .returns)
      (({ world with incidents := world.incidents ++ [incident] }).open call, some ⟨incident, .created⟩)

def settled (incident : Incident) (status : RemoteStatus) (actor : JsString) (now : ℤ) (note : Option JsString) :
    Incident :=
  match status with
  | .acknowledged =>
    { incident with status := .acknowledged, acknowledgedAt := some now, acknowledgedBy := some actor }
  | .resolved => { incident with
    status := .resolved
    resolvedAt := some now
    resolvedBy := some actor
    resolutionNote := (note.filter fun note => !note.isEmpty).or incident.resolutionNote }

def followUp (incident : Incident) (status : RemoteStatus) (origin : LifecycleOrigin) : Call :=
  if incident.notifiedAt.isNone then .returned []
  else
    match routeOf policy incident.routeId with
    | none => .threw
    | some route =>
      let channels := route.channels.filter fun channel => !(origin = .pagerduty && channel = .pagerduty)
      .waiting (notify channels (if status = .acknowledged then .acknowledge else .resolve) incident [] .returns)

def transition (world : World) (id : ℕ) (status : RemoteStatus) (actor : JsString) (origin : LifecycleOrigin)
    (now : ℤ) (note : Option JsString) : World :=
  match world.incidents[id]? with
  | none => world.open .threw
  | some incident =>
    if incident.status = .resolved ∨ incident.status = status.status then world.open (.returned [])
    else
      let next := settled incident status actor now note
      (world.update id fun _ => next).open (followUp policy next status origin)

def transitionKey (world : World) (dedupKey : JsString) (status : RemoteStatus) (actor : JsString)
    (origin : LifecycleOrigin) (now : ℤ) (note : Option JsString) : World :=
  match findOpen world.incidents dedupKey with
  | none => world.open (.returned [])
  | some incident => transition policy world incident.id status actor origin now note

end Lifecycle

section Ticks

variable (policy : AlertPolicy)

inductive Visit where
  | skip
  | throw
  | wait (world : World) (waiting : Waiting)

def dueStep (incident : Incident) (elapsed : ℤ) (route : AlertRoute) : Option EscalationStep :=
  (route.escalation[incident.escalationLevel]?).filter fun step => ¬ elapsed < step.afterMinutes * minuteMs

def escalate (world : World) (incident : Incident) (now elapsed : ℤ) (route : AlertRoute)
    (sent : List AlertNotification) : Visit :=
  match dueStep incident elapsed route with
  | none => .skip
  | some step =>
    let next := { incident with escalationLevel := incident.escalationLevel + 1 }
    let fired := world.fired ++ [⟨incident.id, incident.escalationLevel, incident.status⟩]
    .wait { world.update incident.id fun _ => next with fired }
      (notify step.channels .escalate next sent (.escalation now elapsed route))

def visit (world : World) (incident : Incident) (now : ℤ) (sent : List AlertNotification) : Visit :=
  if incident.status ≠ .triggered then .skip
  else
    match routeOf policy incident.routeId with
    | none => .throw
    | some route =>
      match incident.notifiedAt with
      | none =>
        if isWithinQuietHours policy now then .skip
        else
          let next := { incident with notifiedAt := some now }
          .wait (world.update incident.id fun _ => next) (notify route.channels .trigger next sent (.nextIncident now))
      | some notifiedAt => escalate world incident now (now - notifiedAt) route sent

def walk (world : World) (now : ℤ) (sent : List AlertNotification) : ℕ → ℕ → World × Call
  | 0, _ => (world, .returned sent)
  | count + 1, position =>
    match world.incidents[position]? with
    | none => (world, .returned sent)
    | some incident =>
      match visit policy world incident now sent with
      | .skip => walk world now sent count (position + 1)
      | .throw => (world, .threw)
      | .wait world waiting => (world, .waiting waiting)

def walkFrom (world : World) (now : ℤ) (sent : List AlertNotification) (position : ℕ) : World × Call :=
  walk policy world now sent (world.incidents.length - position) position

def tick (world : World) (now : ℤ) : World :=
  let (world, call) := walkFrom policy world now [] 0
  world.open call

def goOn (world : World) (waiting : Waiting) (sent : List AlertNotification) : World × Call :=
  match waiting.after with
  | .returns => (world, .returned sent)
  | .nextIncident now => walkFrom policy world now sent (waiting.incident + 1)
  | .escalation now elapsed route =>
    match world.incidents[waiting.incident]? with
    | none => (world, .threw)
    | some incident =>
      match escalate world incident now elapsed route sent with
      | .skip => walkFrom policy world now sent (waiting.incident + 1)
      | .throw => (world, .threw)
      | .wait world waiting => (world, .waiting waiting)

def proceed (world : World) (waiting : Waiting) (delivered : Bool) : World × Call :=
  match waiting.left with
  | [] => goOn policy world waiting waiting.sent
  | channel :: left =>
    let sent := if delivered then waiting.sent ++ [⟨channel, waiting.action, waiting.snapshot⟩] else waiting.sent
    if left = [] then goOn policy world waiting sent
    else
      let snapshot := (world.incidents[waiting.incident]?).getD waiting.snapshot
      (world, .waiting { waiting with left, sent, snapshot })

inductive Event where
  | ingest (event : AlertEvent) (now : ℤ)
  | acknowledge (id : ℕ) (actor : JsString) (now : ℤ)
  | resolve (id : ℕ) (actor : JsString) (note : Option JsString) (now : ℤ)
  | applyRemoteStatus (dedupKey : JsString) (status : RemoteStatus) (actor : JsString) (now : ℤ)
  | clear (dedupKey recoveryNote : JsString) (now : ℤ)
  | tick (now : ℤ)
  | settles (call : ℕ) (delivered : Bool)

def World.step (world : World) : Event → World
  | .ingest event now => (ingest policy world event now).1
  | .acknowledge id actor now => transition policy world id .acknowledged actor .dashboard now none
  | .resolve id actor note now => transition policy world id .resolved actor .dashboard now note
  | .applyRemoteStatus dedupKey status actor now => transitionKey policy world dedupKey status actor .pagerduty now none
  | .clear dedupKey recoveryNote now =>
    transitionKey policy world dedupKey .resolved (ofString "system") .auto now
      (some (ofString "Recovered: " ++ recoveryNote))
  | .tick now => tick policy world now
  | .settles call delivered =>
    match world.calls[call]? with
    | some (.waiting waiting) =>
      let (world, next) := proceed policy world waiting delivered
      { world with calls := world.calls.set call next }
    | _ => world

end Ticks

end CrashLab.Alerts
