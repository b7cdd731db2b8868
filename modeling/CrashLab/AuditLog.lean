import CrashLab.Base64
import CrashLab.Digest
import CrashLab.JsonTexts
import CrashLab.Sorting

namespace CrashLab.Audit

open Decimals JsStrings JsonTexts SignatureHash Digest

def text (s : String) : JsString := ofString s

section Redaction

def secretKeyPattern : List String :=
  ["secret", "password", "passwd", "token", "apikey", "api-key", "api_key", "accesskey", "access-key",
    "access_key", "authorization", "credential", "privatekey", "private-key", "private_key", "cookie", "session"]

def piiKeyPattern : List String :=
  ["email", "phone", "ssn", "address", "fullname", "full-name", "full_name", "ipaddress", "ip-address",
    "ip_address"]

def matchesPattern (pattern : List String) (key : JsString) : Bool :=
  pattern.any fun part => includes (lowerAscii key) (text part)

def redacted : JsString := text "[redacted]"

def tokenPrefixLength : ℕ := 6

def redactTokenLike (value : JsString) : JsString :=
  let trimmed := trim value
  if trimmed.length ≤ tokenPrefixLength then redacted
  else trimmed.take tokenPrefixLength ++ text "…" ++ redacted

/-- `clearUrl` is the URL parser of the platform: the address without query, fragment and credentials. -/
def redactUrl (clearUrl : JsString → Option JsString) (value : JsString) : JsString :=
  (clearUrl value).getD value

def looksLikeUrl (value : JsString) : Bool :=
  decide (text "http://" <+: lowerAscii value) || decide (text "https://" <+: lowerAscii value)

def arrayIndex (key : JsString) : Option ℕ :=
  let n := key.foldl (fun n u => n * 10 + (u.toNat - 48)) 0
  if text (toString n) = key ∧ n < 2 ^ 32 - 1 then some n else none

/-- The order of an object's keys: array indices first and ascending, then the others as they were set. Setting
`__proto__` makes no key. -/
def propertyOrder (members : List (JsString × Json)) : List (JsString × Json) :=
  let own := members.filter fun member => member.1 ≠ text "__proto__"
  Sorting.sortByKey (fun member => (arrayIndex member.1).getD 0) (own.filter fun member => (arrayIndex member.1).isSome) ++
    own.filter fun member => (arrayIndex member.1).isNone

mutual

def redactMetadata (clearUrl : JsString → Option JsString) (depth : ℕ) (value : Json) : Json :=
  if depth > 6 then .string redacted
  else
    match value with
    | .string s => .string (if looksLikeUrl s then redactUrl clearUrl s else s)
    | .array items => .array (redactItems clearUrl (depth + 1) items)
    | .object members =>
      .object (propertyOrder (Sorting.sortByKey (fun member => sortKey member.1) (redactMembers clearUrl (depth + 1) members)))
    | value => value

def redactItems (clearUrl : JsString → Option JsString) (depth : ℕ) : List Json → List Json
  | [] => []
  | item :: items => redactMetadata clearUrl depth item :: redactItems clearUrl depth items

def redactMembers (clearUrl : JsString → Option JsString) (depth : ℕ) :
    List (JsString × Json) → List (JsString × Json)
  | [] => []
  | (key, entry) :: members =>
    let value :=
      if matchesPattern secretKeyPattern key then
        match entry with
        | .string s => .string (redactTokenLike s)
        | _ => .string redacted
      else if matchesPattern piiKeyPattern key then .string redacted
      else redactMetadata clearUrl depth entry
    (key, value) :: redactMembers clearUrl depth members

end

end Redaction

def genesisHash : JsString := text (String.ofList (List.replicate 64 '0'))

inductive AuditAction where
  | runDelete
  | tokenRevoke
  | configBundleImport
  | rbacChange
  | dlqPurge
  | dlqReplay
  | dlqPark
  | uploadReject
  | threadResolve
  | artifactDelete
  | webhookSecretRotate
  | webhookSecretRevokeGrace
  | authLogin
  | authLoginDenied
  | authRoleGrant
  | tenantAccessDenied
  | quotaOverride
  | triageStatus
  | triageAssign
  | triagePriority
  | triageBulk
deriving DecidableEq, Repr

def AuditAction.name : AuditAction → String
  | runDelete => "run.delete"
  | tokenRevoke => "token.revoke"
  | configBundleImport => "config.bundle.import"
  | rbacChange => "rbac.change"
  | dlqPurge => "dlq.purge"
  | dlqReplay => "dlq.replay"
  | dlqPark => "dlq.park"
  | uploadReject => "upload.reject"
  | threadResolve => "thread.resolve"
  | artifactDelete => "artifact.delete"
  | webhookSecretRotate => "webhook.secret.rotate"
  | webhookSecretRevokeGrace => "webhook.secret.revokeGrace"
  | authLogin => "auth.login"
  | authLoginDenied => "auth.login.denied"
  | authRoleGrant => "auth.role.grant"
  | tenantAccessDenied => "tenant.access.denied"
  | quotaOverride => "quota.override"
  | triageStatus => "triage.status"
  | triageAssign => "triage.assign"
  | triagePriority => "triage.priority"
  | triageBulk => "triage.bulk"

def systemActor : JsString := text "system"

structure AuditEntryInput where
  action : AuditAction
  target : JsString
  actor : Option JsString := none
  metadata : Option (List (JsString × Json)) := none
  orgId : Option JsString := none

structure Unhashed where
  sequence : ℕ
  timestamp : JsString
  actor : JsString
  action : JsString
  target : JsString
  metadata : Json
  orgId : Option JsString
  prevHash : JsString

structure AuditEntry extends Unhashed where
  hash : JsString

def entryPreimage (entry : Unhashed) : List Char :=
  stringify (.array
    ([.number (Decimal.ofNat entry.sequence), .string entry.timestamp, .string entry.actor, .string entry.action,
      .string entry.target, entry.metadata, .string entry.prevHash] ++ (entry.orgId.map Json.string).toList))

/-- `node:crypto` is outside the repository: SHA-256 is a parameter, its hex form is not. -/
def hashEntry (sha256 : List UInt8 → List UInt8) (entry : Unhashed) : JsString :=
  text (sha256Hex sha256 (asBytes (String.ofList (entryPreimage entry))))

inductive ChainVerification where
  | empty
  | intact
  | broken (brokenAt : ℕ) (reason : String)
deriving DecidableEq, Repr

def verifyFrom (sha256 : List UInt8 → List UInt8) (expectedPrev : JsString) (index : ℕ) :
    List AuditEntry → ChainVerification
  | [] => .intact
  | entry :: entries =>
    if entry.sequence ≠ index + 1 then
      .broken entry.sequence
        ("Entry " ++ toString entry.sequence ++ " is out of sequence (expected " ++ toString (index + 1) ++ ").")
    else if entry.prevHash ≠ expectedPrev then
      .broken entry.sequence ("Entry " ++ toString entry.sequence ++ " does not link to its predecessor.")
    else if hashEntry sha256 entry.toUnhashed ≠ entry.hash then
      .broken entry.sequence ("Entry " ++ toString entry.sequence ++ " has been modified since it was written.")
    else verifyFrom sha256 entry.hash (index + 1) entries

def verifyChain (sha256 : List UInt8 → List UInt8) (entries : List AuditEntry) : ChainVerification :=
  if entries.isEmpty then .empty else verifyFrom sha256 genesisHash 0 entries

def entryText (entry : AuditEntry) : List Char :=
  stringify (.object
    ([(text "sequence", .number (Decimal.ofNat entry.sequence)), (text "timestamp", .string entry.timestamp),
      (text "actor", .string entry.actor), (text "action", .string entry.action),
      (text "target", .string entry.target), (text "metadata", entry.metadata),
      (text "prevHash", .string entry.prevHash)] ++
      (entry.orgId.map fun org => (text "orgId", Json.string org)).toList ++ [(text "hash", .string entry.hash)]))

inductive AppendOnlyViolationError where
  | deleted
  | modified (sequence : ℕ)
deriving DecidableEq, Repr

def AppendOnlyViolationError.message : AppendOnlyViolationError → String
  | deleted => "audit log entries cannot be deleted"
  | modified sequence => "audit entry " ++ toString sequence ++ " cannot be modified"

/-- What `createAppendOnlyGateway` lets through to the store behind it. -/
def save (current next : List AuditEntry) : Except AppendOnlyViolationError (List AuditEntry) :=
  if next.length < current.length then .error .deleted
  else
    match current.zipIdx.find? fun entry => (next[entry.2]?).map entryText ≠ some (entryText entry.1) with
    | some entry => .error (.modified entry.1.sequence)
    | none => .ok next

def normaliseActor (actor : Option JsString) : JsString :=
  let trimmed := (actor.map trim).getD []
  if trimmed = [] then systemActor else trimmed

section AuditLog

variable (sha256 : List UInt8 → List UInt8) (clearUrl : JsString → Option JsString)

/-- `timestamp` is what the server clock reads. -/
def entryFor (entries : List AuditEntry) (timestamp : JsString) (input : AuditEntryInput) : AuditEntry :=
  let withoutHash : Unhashed :=
    { sequence := entries.length + 1
      timestamp
      actor := normaliseActor input.actor
      action := text input.action.name
      target := input.target
      metadata := redactMetadata clearUrl 0 (.object (input.metadata.getD []))
      orgId := input.orgId
      prevHash := (entries.getLast?.map AuditEntry.hash).getD genesisHash }
  { withoutHash with hash := hashEntry sha256 withoutHash }

/-- `AuditLog.append` over what its gateway holds. -/
def append (entries : List AuditEntry) (timestamp : JsString) (input : AuditEntryInput) :
    Except AppendOnlyViolationError (List AuditEntry) :=
  save entries (entries ++ [entryFor sha256 clearUrl entries timestamp input])

def appendAll (entries : List AuditEntry) :
    List (JsString × AuditEntryInput) → Except AppendOnlyViolationError (List AuditEntry)
  | [] => .ok entries
  | (timestamp, input) :: calls => do
    let entries ← append sha256 clearUrl entries timestamp input
    appendAll entries calls

end AuditLog

end CrashLab.Audit
