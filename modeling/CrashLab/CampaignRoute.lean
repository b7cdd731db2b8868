import CrashLab.Calendar
import CrashLab.CampaignQuotas
import CrashLab.IdempotencyStore
import CrashLab.JsonTexts
import CrashLab.UsageLedger

namespace CrashLab.Admission

open Capacity CampaignQuotas Decimals JsStrings JsonTexts

structure CampaignResourceRequest extends ResourceRequest where
  scope : String
  project : String
deriving DecidableEq, Repr

section Payload

def field (payload : Json) (name : String) : Option Json := payload.get (ofString name)

def oneOf (names : List String) : Json → Option String
  | .string s => names.find? fun name => ofString name = s
  | _ => none

def className : CampaignClass → String
  | .interactive => "interactive"
  | .nightly => "nightly"
  | .deep => "deep"

def isCampaignClass (value : Json) : Option CampaignClass :=
  match value with
  | .string s => [CampaignClass.interactive, .nightly, .deep].find? fun cls => ofString (className cls) = s
  | _ => none

def presetClass (value : Json) : Option CampaignClass :=
  (oneOf ["smoke", "nightly", "deep"] value).bind campaignClassForPreset

def maxWorkers : ℕ := 1024

def maxCount : ℕ := 1000000000000

def countOf (max : ℕ) : Json → Option ℕ
  | .number n => if n.value.isInt = true ∧ 0 ≤ n.value ∧ n.value ≤ max then some n.value.num.toNat else none
  | _ => none

def readCount (payload : Json) (name : String) (max : ℕ) : Except String (Option ℕ) :=
  match field payload name with
  | none => .ok none
  | some value =>
    match countOf max value with
    | some n => .ok (some n)
    | none => .error ("\x22" ++ name ++ "\x22 must be an integer from 0 to " ++ toString max ++ ".")

def readClass (payload : Json) : Except String CampaignClass :=
  match field payload "campaignClass" with
  | some value =>
    match isCampaignClass value with
    | some cls => .ok cls
    | none => .error "\x22campaignClass\x22 must be interactive, nightly or deep."
  | none => .ok (((field payload "preset").bind presetClass).getD .interactive)

def isProjectUnit (u : UInt16) : Bool :=
  let c := charOfUnit u
  c.isAlphanum || c = '.' || c = '_' || c = '-'

def readProject (payload : Json) : Except String String :=
  match field payload "project" with
  | none => .ok "default"
  | some (.string s) =>
    if 1 ≤ s.length ∧ s.length ≤ 64 ∧ s.all isProjectUnit = true then .ok (String.ofList (s.map charOfUnit))
    else .error "\x22project\x22 must be 1-64 of [A-Za-z0-9._-]."
  | some _ => .error "\x22project\x22 must be 1-64 of [A-Za-z0-9._-]."

def deriveCampaignRequest (payload : Json) : Except String CampaignResourceRequest := do
  let campaignClass ← readClass payload
  let workers ← readCount payload "workers" maxWorkers
  let parallelism ← readCount payload "parallelism" maxWorkers
  let seeds ← readCount payload "seeds" maxCount
  let rpcCalls ← readCount payload "rpcCalls" maxCount
  let project ← readProject payload
  return {
    scope := defaultQuotaScope
    project
    campaignClass
    workers := max ((workers.or parallelism).getD 1) 1
    seeds := seeds.getD (defaultSeedsByClass campaignClass)
    rpcCalls := rpcCalls.getD 0 }

theorem deriveCampaignRequest_scope {payload : Json} {request : CampaignResourceRequest}
    (h : deriveCampaignRequest payload = .ok request) : request.scope = defaultQuotaScope := by
  unfold deriveCampaignRequest at h
  simp only [bind, Except.bind, pure, Except.pure] at h
  repeat' split at h
  all_goals cases h
  rfl

end Payload

section Admission

inductive CampaignAdmission where
  | ok
  | window (retryAfterSeconds : ℕ)
  | quota (violation : QuotaViolation) (retryAfterSeconds : Option ℕ)
deriving DecidableEq, Repr

def evaluateCampaignAdmission (request : CampaignResourceRequest) (limits : QuotaLimits) (usage : QuotaUsage)
    (windows : SchedulingWindows) (now : ℕ) : CampaignAdmission :=
  if isWindowOpen windows request.campaignClass now = false then
    .window (secondsUntilWindowOpens windows request.campaignClass now)
  else
    match checkAdmission limits usage request.toResourceRequest now with
    | .ok => .ok
    | .rejected violation retryAfterSeconds => .quota violation retryAfterSeconds

theorem evaluateCampaignAdmission_ok {request : CampaignResourceRequest} {limits : QuotaLimits} {usage : QuotaUsage}
    {windows : SchedulingWindows} {now : ℕ}
    (h : evaluateCampaignAdmission request limits usage windows now = .ok) :
    checkAdmission limits usage request.toResourceRequest now = .ok := by
  unfold evaluateCampaignAdmission at h
  split at h
  · cases h
  · split at h
    · assumption
    · cases h

def quotaOverrideHeader : String := "X-CrashLab-Quota-Override"

def maxOverrideReasonLength : ℕ := 200

def parseOverrideReason : Option JsString → Except String (Option JsString)
  | none => .ok none
  | some raw =>
    let reason := trim raw
    if reason.length = 0 ∨ reason.length > maxOverrideReasonLength then
      .error (quotaOverrideHeader ++ " must carry a reason of 1-" ++ toString maxOverrideReasonLength ++
        " characters.")
    else .ok (some reason)

end Admission

end CrashLab.Admission

namespace CrashLab.Campaigns

open Capacity CampaignQuotas Decimals JsStrings JsonTexts Admission Idempotency UsageLedger

section Registry

structure CampaignTarget where
  area : Option JsString
  preset : Option JsString
  seeds : ℕ
  workers : ℕ

inductive CampaignStatus where
  | queued
  | running
  | paused
  | completed
  | cancelled
  | failed
deriving DecidableEq, Repr

structure CampaignRecord where
  id : JsString
  name : Option JsString
  status : CampaignStatus
  createdAt : ℤ
  target : CampaignTarget

structure RegisterCampaignInput where
  id : Json
  name : Option JsString
  status : CampaignStatus
  createdAt : Json
  target : CampaignTarget

def maxStoredCampaigns : ℕ := 1000

/-- `dateParse` is the date parser of the platform. -/
def isoOrNull (dateParse : JsString → Option ℤ) : Json → Option ℤ
  | .string s => if s = [] then none else dateParse s
  | _ => none

def oldest : List CampaignRecord → Option CampaignRecord :=
  List.foldl (fun best record =>
    match best with
    | none => some record
    | some best => some (if record.createdAt < best.createdAt then record else best)) none

def evictOldestCampaignIfNeeded (campaigns : List CampaignRecord) : List CampaignRecord :=
  if campaigns.length ≤ maxStoredCampaigns then campaigns
  else
    match oldest campaigns with
    | none => campaigns
    | some record => KeyedLists.remove CampaignRecord.id record.id campaigns

def CampaignRecord.refreshed (existing : CampaignRecord) (input : RegisterCampaignInput) : CampaignRecord :=
  { existing with
    name := input.name.or existing.name
    status := input.status
    target := { input.target with
      area := input.target.area.or existing.target.area
      preset := input.target.preset.or existing.target.preset } }

def registerCampaign (dateParse : JsString → Option ℤ) (campaigns : List CampaignRecord) (now : ℕ)
    (input : RegisterCampaignInput) : List CampaignRecord :=
  let id := match input.id with
    | .string s => trim s
    | _ => []
  if id = [] then campaigns
  else
    match KeyedLists.get CampaignRecord.id id campaigns with
    | some existing => KeyedLists.replace CampaignRecord.id (existing.refreshed input) campaigns
    | none =>
      evictOldestCampaignIfNeeded (campaigns ++
        [⟨id, input.name, input.status, (isoOrNull dateParse input.createdAt).getD now, input.target⟩])

end Registry

def idempotencyScope : JsString := ofString "POST /api/campaigns"

/-- What the route reads of a request; `principal` is the caller it comes from. -/
structure CampaignRequest where
  principal : String
  idempotencyKey : Option JsString := none
  quotaOverride : Option JsString := none
  body : Except String Json

def keyOf (request : CampaignRequest) : Option JsString :=
  match parseIdempotencyKey request.idempotencyKey with
  | .ok key => key
  | .error _ => none

def payloadOf (request : CampaignRequest) : Json :=
  match request.body with
  | .ok .null => .object []
  | .ok body => body
  | .error _ => .object []

structure Deployment where
  limits : QuotaLimits := {}
  windows : SchedulingWindows := {}
  sha256 : List UInt8 → List UInt8
  dateParse : JsString → Option ℤ

structure CampaignCapacity where
  scope : String
  project : String
  campaignClass : CampaignClass
  workers : ℕ
  seeds : ℕ
  quotaOverride : Bool
deriving DecidableEq, Repr

structure CampaignResponse where
  campaign : List (JsString × Json)
  capacity : CampaignCapacity

inductive Reply where
  | created (response : CampaignResponse) (key : Option JsString)
  | replayed (response : CampaignResponse) (key : JsString)
  | keyInvalid (error : String)
  | bodyInvalid (error : String)
  | invalid (error : String)
  | windowClosed (retryAfterSeconds : ℕ)
  | quotaExceeded (violation : QuotaViolation) (retryAfterSeconds : Option ℕ)
  | overrideForbidden
  | keyReused

def Reply.success : Reply → Option CampaignResponse
  | created response _ => some response
  | replayed response _ => some response
  | _ => none

section Campaign

def ownMembers : Json → List (JsString × Json)
  | .object members => members
  | .array items => items.zipIdx.map fun item => (ofString (toString item.2), item.1)
  | .string s => s.zipIdx.map fun unit => (ofString (toString unit.2), .string [unit.1])
  | _ => []

def campaignOf (generatedId : JsString) (createdAt : ℕ) (payload : Json) : List (JsString × Json) :=
  fromEntries
    ([(ofString "id", .string generatedId), (ofString "status", .string (ofString "queued")),
      (ofString "createdAt", .string (ofString (String.ofList (Calendar.isoText createdAt))))] ++ ownMembers payload)

def CampaignResponse.field (response : CampaignResponse) (name : String) : Json :=
  ((Json.object response.campaign).get (ofString name)).getD .null

end Campaign

variable {ι : Type}

/-- What a `Map` takes a campaign id for; an object is itself and no other. -/
inductive LeaseKey (ι : Type) where
  | text (s : JsString)
  | number (n : Decimal)
  | bool (b : Bool)
  | null
  | reference (request : ι)
deriving DecidableEq

def leaseKey (request : ι) : Json → LeaseKey ι
  | .string s => .text s
  | .number n => .number n
  | .bool b => .bool b
  | .null => .null
  | .array _ => .reference request
  | .object _ => .reference request

structure Draft where
  resources : CampaignResourceRequest
  response : CampaignResponse

inductive Stage (ι : Type) where
  | received
  | lookingUp (existing : Option (IdempotencyRecord ι CampaignResponse))
  | authorising (resources : CampaignResourceRequest) (checkedAt : ℕ)
  | storing (draft : Draft) (winner : IdempotencyRecord ι CampaignResponse)
  | answered (reply : Reply)

/-- The continuation of a request runs up to its next await. `suffix` is the random part of a campaign id, and
`maintainer` what the role store says of the caller. -/
structure Turn (ι : Type) where
  request : ι
  now : ℕ
  suffix : JsString
  maintainer : Bool := false

/-- One call of `ledger.admit` and of `registerCampaign`. -/
structure Creation (ι : Type) where
  request : ι
  at_ : ℕ
  draft : Draft

structure RouteState (ι : Type) where
  store : InMemoryIdempotencyStore ι CampaignResponse := {}
  ledger : CapacityLedger (LeaseKey ι) := {}
  campaigns : List CampaignRecord := []
  stages : ι → Stage ι := fun _ => .received
  creations : List (Creation ι) := []

namespace Creation

def campaignId (creation : Creation ι) : Json := creation.draft.response.field "id"

def admitInput (creation : Creation ι) : AdmitInput (LeaseKey ι) :=
  { creation.draft.resources with
    campaignId := leaseKey creation.request creation.campaignId
    scope := creation.draft.resources.scope
    project := creation.draft.resources.project }

def textField (payload : Json) (name : String) : Option JsString :=
  match field payload name with
  | some (.string s) => some s
  | _ => none

def registerInput (creation : Creation ι) (payload : Json) : RegisterCampaignInput :=
  { id := creation.campaignId
    name := ((textField payload "name").map trim).filter (· ≠ [])
    status := .queued
    createdAt := creation.draft.response.field "createdAt"
    target :=
      { area := textField payload "area"
        preset := textField payload "preset"
        seeds := creation.draft.resources.seeds
        workers := creation.draft.resources.workers } }

end Creation

variable [DecidableEq ι] (env : Deployment) (requests : ι → CampaignRequest)

namespace RouteState

def setStage (s : RouteState ι) (i : ι) (stage : Stage ι) : RouteState ι :=
  { s with stages := Function.update s.stages i stage }

def answer (s : RouteState ι) (i : ι) (reply : Reply) : RouteState ι := s.setStage i (.answered reply)

def replayOrReject (s : RouteState ι) (i : ι) (record : IdempotencyRecord ι CampaignResponse) : RouteState ι :=
  if record.fingerprint ≠ fingerprintPayload env.sha256 (payloadOf (requests i)) then s.answer i .keyReused
  else s.answer i (.replayed record.response ((keyOf (requests i)).getD []))

def finish (s : RouteState ι) (turn : Turn ι) (draft : Draft) : RouteState ι :=
  let i := turn.request
  let creation : Creation ι := ⟨i, turn.now, draft⟩
  { store := s.store
    ledger := s.ledger.admitLease turn.now creation.admitInput
    campaigns := registerCampaign env.dateParse s.campaigns turn.now (creation.registerInput (payloadOf (requests i)))
    stages := Function.update s.stages i (.answered (.created draft.response (keyOf (requests i))))
    creations := s.creations ++ [creation] }

def draftFor (turn : Turn ι) (resources : CampaignResourceRequest) (createdAt : ℕ) (quotaOverride : Bool) : Draft :=
  let generatedId := ofString ("campaign-" ++ toString turn.now ++ "-") ++ turn.suffix
  { resources
    response :=
      { campaign := campaignOf generatedId createdAt (payloadOf (requests turn.request))
        capacity :=
          { scope := resources.scope
            project := resources.project
            campaignClass := resources.campaignClass
            workers := resources.workers
            seeds := resources.seeds
            quotaOverride } } }

def create (s : RouteState ι) (turn : Turn ι) (resources : CampaignResourceRequest) (createdAt : ℕ)
    (quotaOverride : Bool) : RouteState ι :=
  let i := turn.request
  let draft := draftFor requests turn resources createdAt quotaOverride
  match keyOf (requests i) with
  | none => s.finish env requests turn draft
  | some key =>
    let record := buildIdempotencyRecord env.sha256 i idempotencyScope key (payloadOf (requests i))
      (draft.response.field "id") draft.response turn.now
    let (winner, store) := s.store.putIfAbsent turn.now record
    { s with store }.setStage i (.storing draft winner)

def refuse (s : RouteState ι) (turn : Turn ι) (resources : CampaignResourceRequest) (reason : Option JsString)
    (reply : Reply) : RouteState ι :=
  match reason with
  | none => s.answer turn.request reply
  | some _ => s.setStage turn.request (.authorising resources turn.now)

def admission (s : RouteState ι) (turn : Turn ι) : RouteState ι :=
  let i := turn.request
  match deriveCampaignRequest (payloadOf (requests i)) with
  | .error error => s.answer i (.invalid error)
  | .ok resources =>
    match parseOverrideReason (requests i).quotaOverride with
    | .error error => s.answer i (.invalid error)
    | .ok reason =>
      match evaluateCampaignAdmission resources env.limits (s.ledger.usage turn.now resources.scope) env.windows
        turn.now with
      | .ok => s.create env requests turn resources turn.now false
      | .window retryAfterSeconds => s.refuse turn resources reason (.windowClosed retryAfterSeconds)
      | .quota violation retryAfterSeconds => s.refuse turn resources reason (.quotaExceeded violation retryAfterSeconds)

def receive (s : RouteState ι) (turn : Turn ι) : RouteState ι :=
  let i := turn.request
  match parseIdempotencyKey (requests i).idempotencyKey, (requests i).body with
  | .error error, _ => s.answer i (.keyInvalid error)
  | .ok _, .error error => s.answer i (.bodyInvalid error)
  | .ok none, .ok _ => s.admission env requests turn
  | .ok (some key), .ok _ =>
    let (existing, store) := s.store.get turn.now idempotencyScope key
    { s with store }.setStage i (.lookingUp existing)

def step (s : RouteState ι) (turn : Turn ι) : RouteState ι :=
  match s.stages turn.request with
  | .received => s.receive env requests turn
  | .lookingUp (some record) => s.replayOrReject env requests turn.request record
  | .lookingUp none => s.admission env requests turn
  | .authorising resources checkedAt =>
    if turn.maintainer then s.create env requests turn resources checkedAt true
    else s.answer turn.request .overrideForbidden
  | .storing draft winner =>
    if winner.builtBy ≠ turn.request then s.replayOrReject env requests turn.request winner
    else s.finish env requests turn draft
  | .answered _ => s

end RouteState

end CrashLab.Campaigns
