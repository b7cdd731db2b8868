import CrashLab.AuditLog

namespace CrashLab.Audit

open Decimals JsStrings JsonTexts SignatureHash

def defaultAuditOrgId : JsString := text "org_default"

def maxAuditPageSize : ℚ := 200

inductive CursorError where
  | invalid
  | mismatch
deriving DecidableEq, Repr

def CursorError.message : CursorError → String
  | invalid => "invalid cursor"
  | mismatch => "Cursor does not match this query's sort/filter; restart pagination from page 1."

structure AuditQuery where
  actor : Option JsString := none
  action : Option JsString := none
  target : Option JsString := none
  since : Option JsString := none
  until_ : Option JsString := none

structure AuditPage where
  items : List AuditEntry
  total : ℕ
  nextCursor : Option (List Char)
  hasMore : Bool

/-- What the platform decides: lower case beyond ASCII, the instant a date text stands for, and how bytes that are
no UTF-8 are read. -/
structure Platform where
  toLowerCase : JsString → JsString
  dateParse : JsString → Option ℤ
  replaceInvalid : List UInt8 → List Char

def truthy (s : Option JsString) : Option JsString := s.filter fun s => !s.isEmpty

def entryOrg (entry : AuditEntry) : JsString := entry.orgId.getD defaultAuditOrgId

section Cursors

def toBase64Url (chars : List Char) : List Char := Base64.encode (asBytes (String.ofList chars))

def fromBase64Url (platform : Platform) (cursor : List Char) : List Char :=
  match (ByteArray.mk (Base64.decode cursor).toArray).utf8Decode? with
  | some chars => chars.toList
  | none => platform.replaceInvalid (Base64.decode cursor)

def encodeCursor (sequence : ℕ) : List Char := toBase64Url ("seq:".toList ++ Nat.toDigits 10 sequence)

def decodeCursor (platform : Platform) (cursor : List Char) : Except CursorError ℚ :=
  match fromBase64Url platform cursor with
  | 's' :: 'e' :: 'q' :: ':' :: digits =>
    match readNat digits with
    | some n => .ok n
    | none => .error .invalid
  | _ => .error .invalid

def boundCursor (sequence : ℕ) (scope : JsString) : Json :=
  .object [(text "v", .number (Decimal.ofNat 2)), (text "seq", .number (Decimal.ofNat sequence)),
    (text "scope", .string scope)]

def encodeBoundAuditCursor (sequence : ℕ) (scope : JsString) : List Char :=
  toBase64Url (stringify (boundCursor sequence scope))

def decodeBoundAuditCursor (platform : Platform) (cursor : List Char) (scope : JsString) : Except CursorError ℚ :=
  let parsed := (parse (fromBase64Url platform cursor)).getD .null
  match parsed.get (text "v") with
  | some version =>
    match version, parsed.get (text "seq"), parsed.get (text "scope") with
    | .number v, some (.number seq), some (.string issued) =>
      if v.value ≠ 2 then .error .invalid
      else if issued ≠ scope then .error .mismatch
      else .ok seq.value
    | _, _, _ => .error .invalid
  | none => decodeCursor platform cursor

end Cursors

section Filter

variable (platform : Platform)

def earlier (a b : Option ℤ) : Bool :=
  match a, b with
  | some a, some b => a < b
  | _, _ => false

def matchesQuery (orgId : JsString) (query : AuditQuery) (entry : AuditEntry) : Bool :=
  let lower := platform.toLowerCase
  let actor := truthy (query.actor.map fun actor => lower (trim actor))
  let target := truthy (query.target.map fun target => lower (trim target))
  let at_ := platform.dateParse entry.timestamp
  entryOrg entry = orgId && actor.all (includes (lower entry.actor)) &&
    (truthy query.action).all (· = entry.action) && target.all (includes (lower entry.target)) &&
    (truthy query.since).all (fun since => !earlier at_ (platform.dateParse since)) &&
    (truthy query.until_).all (fun bound => !earlier (platform.dateParse bound) at_)

def filterScopedEntries (entries : List AuditEntry) (orgId : JsString) (query : AuditQuery) : List AuditEntry :=
  Sorting.sortByKey (fun entry => OrderDual.toDual entry.sequence) (entries.filter (matchesQuery platform orgId query))

structure PageRequest where
  cursor : Option (List Char) := none
  limit : Option ℚ := none
  scope : Option JsString := none

def pageLimit (limit : Option ℚ) : ℚ := min (max 1 (limit.getD 50)) maxAuditPageSize

/-- The sequence a page continues below; an empty cursor is none. -/
def pageAfter (cursor : Option (List Char)) (scope : Option JsString) : Except CursorError (Option ℚ) :=
  match cursor, scope with
  | none, _ => .ok none
  | some [], _ => .ok none
  | some cursor, some scope => (decodeBoundAuditCursor platform cursor scope).map some
  | some cursor, none => (decodeCursor platform cursor).map some

def queryAuditEntries (entries : List AuditEntry) (orgId : JsString) (query : AuditQuery) (page : PageRequest) :
    Except CursorError AuditPage := do
  let limit := pageLimit page.limit
  let scope := truthy page.scope
  let after ← pageAfter platform page.cursor scope
  let matchingAll := filterScopedEntries platform entries orgId query
  let matching := matchingAll.filter fun entry => after.all fun after => decide ((entry.sequence : ℚ) < after)
  let items := matching.take limit.floor.toNat
  let hasMore := decide (limit < matching.length)
  let nextCursor := (if hasMore then items.getLast? else none).map fun last =>
    match scope with
    | some scope => encodeBoundAuditCursor last.sequence scope
    | none => encodeCursor last.sequence
  return { items, total := matchingAll.length, nextCursor, hasMore }

end Filter

end CrashLab.Audit
