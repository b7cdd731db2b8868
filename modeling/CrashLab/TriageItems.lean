import CrashLab.Comparators
import CrashLab.JsStrings

namespace CrashLab.Triage

open JsStrings

section Items

inductive TriageStatus where
  | new
  | triaged
  | inProgress
  | resolved
deriving DecidableEq, Repr

def TriageStatus.name : TriageStatus → JsString
  | new => ofString "new"
  | triaged => ofString "triaged"
  | inProgress => ofString "in-progress"
  | resolved => ofString "resolved"

inductive TriagePriority where
  | p0
  | p1
  | p2
  | p3
deriving DecidableEq, Repr

def TriagePriority.name : TriagePriority → JsString
  | p0 => ofString "p0"
  | p1 => ofString "p1"
  | p2 => ofString "p2"
  | p3 => ofString "p3"

def isTriageStatus (value : JsString) : Option TriageStatus :=
  [TriageStatus.new, .triaged, .inProgress, .resolved].find? fun status => status.name = value

def isTriagePriority (value : JsString) : Option TriagePriority :=
  [TriagePriority.p0, .p1, .p2, .p3].find? fun priority => priority.name = value

inductive TriageSeverity where
  | low
  | medium
  | high
  | critical
deriving DecidableEq, Repr

structure TriageItemState where
  id : JsString
  orgId : JsString
  runId : Option JsString := none
  signature : JsString
  failureClass : JsString
  severity : TriageSeverity
  occurrences : ℕ
  status : TriageStatus
  priority : TriagePriority
  assignee : Option JsString := none
  version : ℕ
  updatedAt : JsString
  updatedBy : Option JsString := none
deriving DecidableEq

structure TriageSnapshot where
  status : TriageStatus
  priority : TriagePriority
  assignee : Option JsString
deriving DecidableEq

def snapshotOf (item : TriageItemState) : TriageSnapshot :=
  { status := item.status, priority := item.priority, assignee := item.assignee }

def maxAssigneeLength : ℕ := 80

end Items

section StateMachine

def triageTransitions : TriageStatus → List TriageStatus
  | .new => [.triaged, .resolved]
  | .triaged => [.new, .inProgress, .resolved]
  | .inProgress => [.triaged, .resolved]
  | .resolved => [.new]

inductive TriageErrorCode where
  | notFound
  | forbidden
  | invalidStatus
  | invalidPriority
  | invalidTransition
  | invalidAssignee
  | emptyMutation
deriving DecidableEq, Repr

structure TriageError where
  code : TriageErrorCode
  message : JsString
deriving DecidableEq

/-- An assignee of `none` inside is the request to unassign. -/
structure TriageMutationInput where
  status : Option JsString := none
  assignee : Option (Option JsString) := none
  priority : Option JsString := none
  actor : JsString
  now : JsString

inductive TriageField where
  | status
  | assignee
  | priority
deriving DecidableEq, Repr

structure TriageTransition where
  item : TriageItemState
  changed : Bool
  before : TriageSnapshot
  after : TriageSnapshot
  fields : List TriageField

def canTransition (from_ to_ : TriageStatus) : Bool := from_ = to_ || (triageTransitions from_).contains to_

/-- `/^[A-Za-z0-9._@+-]+$/`. -/
def assigneePattern (value : JsString) : Bool :=
  !value.isEmpty && value.all fun u =>
    (65 ≤ u.toNat && u.toNat ≤ 90) || (97 ≤ u.toNat && u.toNat ≤ 122) || (48 ≤ u.toNat && u.toNat ≤ 57) ||
      (ofString "._@+-").contains u

def normaliseAssignee (value : JsString) : Except TriageError JsString :=
  let trimmed := trim value
  if trimmed.isEmpty then
    .error ⟨.invalidAssignee, ofString "An assignee is required — use unassign to clear ownership."⟩
  else if maxAssigneeLength < trimmed.length then
    .error ⟨.invalidAssignee, ofString "An assignee must be at most 80 characters."⟩
  else if !assigneePattern trimmed then
    .error ⟨.invalidAssignee, ofString "An assignee may only contain letters, digits, dots, underscores, @ and +."⟩
  else .ok trimmed

def normaliseActor (actor : JsString) : JsString :=
  if (trim actor).isEmpty then ofString "system" else trim actor

def parseStatus (input : TriageMutationInput) : Except TriageError (Option TriageStatus) :=
  match input.status with
  | none => .ok none
  | some value =>
    match isTriageStatus value with
    | none => .error ⟨.invalidStatus, ofString "Unknown triage status: " ++ value ++ ofString "."⟩
    | some status => .ok (some status)

def moveTo (item : TriageItemState) : Option TriageStatus → Except TriageError TriageStatus
  | none => .ok item.status
  | some status =>
    if canTransition item.status status then .ok status
    else .error ⟨.invalidTransition, ofString "Cannot move an item from " ++ item.status.name ++ ofString " to " ++
      status.name ++ ofString "."⟩

def nextPriority (item : TriageItemState) (input : TriageMutationInput) : Except TriageError TriagePriority :=
  match input.priority with
  | none => .ok item.priority
  | some value =>
    match isTriagePriority value with
    | none => .error ⟨.invalidPriority, ofString "Unknown triage priority: " ++ value ++ ofString "."⟩
    | some priority => .ok priority

def nextAssignee (item : TriageItemState) (input : TriageMutationInput) : Except TriageError (Option JsString) :=
  match input.assignee with
  | none => .ok item.assignee
  | some none => .ok none
  | some (some value) => (normaliseAssignee value).map some

def transitionTriageItem (item : TriageItemState) (input : TriageMutationInput) : Except TriageError TriageTransition :=
  if input.status.isNone && input.assignee.isNone && input.priority.isNone then
    .error ⟨.emptyMutation, ofString "Nothing to update on this item."⟩
  else do
    let wanted ← parseStatus input
    let priority ← nextPriority item input
    let status ← moveTo item wanted
    let assignee ← nextAssignee item input
    let fields := (if status ≠ item.status then [TriageField.status] else []) ++
      (if assignee ≠ item.assignee then [TriageField.assignee] else []) ++
      (if priority ≠ item.priority then [TriageField.priority] else [])
    let before := snapshotOf item
    if fields = [] then return { item, changed := false, before, after := before, fields := [] }
    else
      let next := { item with
        status
        priority
        assignee
        version := item.version + 1
        updatedAt := input.now
        updatedBy := some (normaliseActor input.actor) }
      return { item := next, changed := true, before, after := snapshotOf next, fields }

end StateMachine

section Bulk

structure BulkTriageRequest where
  ids : List JsString
  ids_nodup : ids.Nodup
  status : Option JsString := none
  assignee : Option (Option JsString) := none
  priority : Option JsString := none
  actor : JsString
  orgId : Option JsString := none
  now : Option JsString := none

structure BulkTriageFailure where
  id : JsString
  error : TriageError

inductive TriageAction where
  | status
  | assign
  | priority
  | bulk
deriving DecidableEq, Repr

structure TriageAuditRecord where
  action : TriageAction
  itemId : JsString
  actor : JsString
  at_ : JsString
  before : TriageSnapshot
  after : TriageSnapshot
  orgId : Option JsString

structure BulkTriageResult where
  items : List TriageItemState
  updated : List TriageItemState
  unchanged : List TriageItemState
  failed : List BulkTriageFailure
  audit : List TriageAuditRecord

def auditActionFor : List TriageField → TriageAction
  | [.assignee] => .assign
  | [.priority] => .priority
  | _ :: _ :: _ => .bulk
  | _ => .status

def BulkTriageRequest.input (request : BulkTriageRequest) (clock : JsString) : TriageMutationInput where
  status := request.status
  assignee := request.assignee
  priority := request.priority
  actor := request.actor
  now := request.now.getD clock

def itemById (items : List TriageItemState) (id : JsString) : Option TriageItemState :=
  items.reverse.find? fun item => item.id = id

def mutateItem (items : List TriageItemState) (request : BulkTriageRequest) (clock id : JsString) :
    Except TriageError TriageTransition :=
  match itemById items id with
  | none => .error ⟨.notFound, ofString "No triage item with id " ++ id ++ ofString "."⟩
  | some item =>
    if request.orgId.any (· ≠ item.orgId) then
      .error ⟨.forbidden, ofString "That item belongs to another organisation."⟩
    else transitionTriageItem item (request.input clock)

def updatedItem : Except TriageError TriageTransition → Option TriageItemState
  | .ok transition => if transition.changed then some transition.item else none
  | .error _ => none

def unchangedItem : Except TriageError TriageTransition → Option TriageItemState
  | .ok transition => if transition.changed then none else some transition.item
  | .error _ => none

def failureOf (id : JsString) : Except TriageError TriageTransition → Option BulkTriageFailure
  | .ok _ => none
  | .error error => some { id, error }

def auditOf (request : BulkTriageRequest) (id : JsString) :
    Except TriageError TriageTransition → Option TriageAuditRecord
  | .ok transition =>
    if transition.changed then
      some
        { action := auditActionFor transition.fields
          itemId := id
          actor := transition.item.updatedBy.getD request.actor
          at_ := transition.item.updatedAt
          before := transition.before
          after := transition.after
          orgId := if transition.item.orgId = [] then none else some transition.item.orgId }
    else none
  | .error _ => none

def replaceFirst (next : TriageItemState) : List TriageItemState → List TriageItemState
  | [] => []
  | item :: items => if item.id = next.id then next :: items else item :: replaceFirst next items

def applyBulkTriage (items : List TriageItemState) (request : BulkTriageRequest) (clock : JsString) :
    BulkTriageResult :=
  let outcome := mutateItem items request clock
  let updated := request.ids.filterMap fun id => updatedItem (outcome id)
  { items := updated.foldl (fun items next => replaceFirst next items) items
    updated
    unchanged := request.ids.filterMap fun id => unchangedItem (outcome id)
    failed := request.ids.filterMap fun id => failureOf id (outcome id)
    audit := request.ids.filterMap fun id => auditOf request id (outcome id) }

end Bulk

end CrashLab.Triage
