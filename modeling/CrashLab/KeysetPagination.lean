import CrashLab.Base64
import CrashLab.Comparators
import CrashLab.JsonTexts
import CrashLab.SignatureHash
import CrashLab.Sorting

namespace CrashLab.Pagination

open Decimals JsStrings JsonTexts SignatureHash

inductive SortKey where
  | number (value : Decimal)
  | text (value : JsString)
deriving DecidableEq

structure KeysetCursor where
  sortKey : SortKey
  id : JsString
deriving DecidableEq

inductive Direction where
  | asc
  | desc
deriving DecidableEq, Repr

structure KeysetPaginationResult (T : Type) where
  items : List T
  total : ℕ
  nextCursor : Option (List Char)
  hasMore : Bool
  /-- What `onLegacyCursor` is told. -/
  legacyCursor : Option (List Char)

structure PaginateKeysetOptions where
  cursor : Option (List Char) := none
  limit : ℤ := 10
  direction : Direction := .desc
  scope : Option JsString := none

inductive PaginationError where
  | limit
  | cursorMismatch
  | cursorVersion
deriving DecidableEq, Repr

def PaginationError.message : PaginationError → String
  | limit => "limit must be > 0"
  | cursorMismatch => "Cursor does not match this query's sort/filter; restart pagination from page 1."
  | cursorVersion => "Cursor was issued by an incompatible server version; restart pagination from page 1."

section Cursors

def SortKey.json : SortKey → Json
  | number value => .number value
  | text value => .string value

def SortKey.ofJson : Json → Option SortKey
  | .number value => some (.number value)
  | .string value => some (.text value)
  | _ => none

def cursorPayloadVersion : ℕ := 2

/-- `Buffer.from(json, 'utf8').toString('base64')`. -/
def toBase64 (json : List Char) : List Char := Base64.encodeStandard (asBytes (String.ofList json))

/-- `Buffer.from(cursor, 'base64').toString('utf8')`; how bytes that are no UTF-8 are read is the platform's. -/
def fromBase64 (replaceInvalid : List UInt8 → List Char) (cursor : List Char) : List Char :=
  match (ByteArray.mk (Base64.decode cursor).toArray).utf8Decode? with
  | some chars => chars.toList
  | none => replaceInvalid (Base64.decode cursor)

def cursorJson (cursor : KeysetCursor) : Json :=
  .object [(ofString "sortKey", cursor.sortKey.json), (ofString "id", .string cursor.id)]

def boundCursorJson (cursor : KeysetCursor) (scope : JsString) : Json :=
  .object [(ofString "v", .number (Decimal.ofNat cursorPayloadVersion)), (ofString "sortKey", cursor.sortKey.json),
    (ofString "id", .string cursor.id), (ofString "scope", .string scope)]

def encodeCursor (cursor : KeysetCursor) : List Char := toBase64 (stringify (cursorJson cursor))

def encodeBoundCursor (cursor : KeysetCursor) (scope : JsString) : List Char :=
  toBase64 (stringify (boundCursorJson cursor scope))

variable (replaceInvalid : List UInt8 → List Char)

def decodeCursor (cursorStr : List Char) : Option KeysetCursor := do
  let parsed ← parse (fromBase64 replaceInvalid cursorStr)
  match parsed.get (ofString "id"), parsed.get (ofString "sortKey") with
  | some (.string id), some sortKey => (SortKey.ofJson sortKey).map fun sortKey => { sortKey, id }
  | _, _ => none

inductive BoundCursorDecode where
  | ok (cursor : KeysetCursor)
  | invalid
  | unsupportedVersion
  | scopeMismatch

def decodeBoundCursor (cursorStr : List Char) (expectedScope : JsString) : BoundCursorDecode :=
  let parsed := (parse (fromBase64 replaceInvalid cursorStr)).getD .null
  match parsed.get (ofString "v") with
  -- legacy offset cursors and v1 payloads carry no version
  | none => .invalid
  | some (.number version) =>
    if version.value ≠ cursorPayloadVersion then .unsupportedVersion
    else
      match parsed.get (ofString "id"), (parsed.get (ofString "sortKey")).bind SortKey.ofJson,
          parsed.get (ofString "scope") with
      | some (.string id), some sortKey, some (.string scope) =>
        if scope ≠ expectedScope then .scopeMismatch else .ok { sortKey, id }
      | _, _, _ => .invalid
  | some _ => .unsupportedVersion

end Cursors

section Comparison

variable (localeCompare : JsString → JsString → ℤ)

/-- `String(sortKey)`. -/
def SortKey.toText : SortKey → JsString
  | number value => ofString (String.ofList value.text)
  | text value => value

def Direction.sign : Direction → ℚ → ℚ
  | asc, diff => diff
  | desc, diff => -diff

def primaryDiff (a b : KeysetCursor) : ℚ :=
  match a.sortKey, b.sortKey with
  | .number x, .number y => x.value - y.value
  | x, y => localeCompare x.toText y.toText

def idDiff (a b : KeysetCursor) : ℚ := localeCompare a.id b.id

def compareKeyset (direction : Direction) (a b : KeysetCursor) : ℚ :=
  if primaryDiff localeCompare a b ≠ 0 then direction.sign (primaryDiff localeCompare a b)
  else direction.sign (idDiff localeCompare a b)

end Comparison

section Scopes

def fnv1a32 (input : JsString) : ℕ :=
  input.foldl (fun hash unit => (hash ^^^ unit.toNat) * 0x01000193 % 2 ^ 32) 0x811c9dc5

def fnv1a32Hex (input : JsString) : JsString :=
  let digits := Nat.toDigits 16 (fnv1a32 input)
  ofString (String.ofList (List.replicate (8 - digits.length) '0' ++ digits))

/-- What is hashed; a part that is `undefined` or `null` is `none` here. -/
def canonicalScope (parts : List (JsString × Option SortKey)) : JsString :=
  (ofString "&").intercalate ((Sorting.sortByKey (fun part => JsStrings.sortKey part.1) parts).map fun part =>
    part.1 ++ ofString "=" ++ part.2.elim [] SortKey.toText)

def computeCursorScope (parts : List (JsString × Option SortKey)) : JsString := fnv1a32Hex (canonicalScope parts)

end Scopes

section Pages

variable (localeCompare : JsString → JsString → ℤ) (replaceInvalid : List UInt8 → List Char)

def truthy (s : Option JsString) : Option JsString := s.filter fun s => !s.isEmpty

inductive CursorReading where
  | absent
  | legacy (cursor : List Char)
  | target (cursor : KeysetCursor)

def readCursor (cursor : Option (List Char)) (scope : Option JsString) : Except PaginationError CursorReading :=
  match cursor, scope with
  | none, _ => .ok .absent
  | some [], _ => .ok .absent
  | some cursor, some scope =>
    match decodeBoundCursor replaceInvalid cursor scope with
    | .scopeMismatch => .error .cursorMismatch
    | .unsupportedVersion => .error .cursorVersion
    | .ok target => .ok (.target target)
    | .invalid => .ok (.legacy cursor)
  | some cursor, none =>
    match decodeCursor replaceInvalid cursor with
    | none => .ok (.legacy cursor)
    | some decoded => .ok (.target decoded)

def CursorReading.position : CursorReading → Option KeysetCursor
  | target cursor => some cursor
  | _ => none

def CursorReading.legacy? : CursorReading → Option (List Char)
  | legacy cursor => some cursor
  | _ => none

def emitCursor (scope : Option JsString) (lastKey : KeysetCursor) : List Char :=
  match scope with
  | some scope => encodeBoundCursor lastKey scope
  | none => encodeCursor lastKey

variable {T : Type} (getItemKeyset : T → KeysetCursor)

def paginateKeyset (items : List T) (options : PaginateKeysetOptions) :
    Except PaginationError (KeysetPaginationResult T) := do
  if options.limit ≤ 0 then throw .limit
  let limit := options.limit.toNat
  let scope := truthy options.scope
  let sorted := Comparators.sortBy
    (fun a b => compareKeyset localeCompare options.direction (getItemKeyset a) (getItemKeyset b)) items
  let reading ← readCursor replaceInvalid options.cursor scope
  let filtered :=
    match reading.position with
    | none => sorted
    | some target =>
      sorted.filter fun item => decide (0 < compareKeyset localeCompare options.direction (getItemKeyset item) target)
  let pageItems := filtered.take limit
  let hasMore := decide (limit < filtered.length)
  let lastKey := pageItems.getLast?.map getItemKeyset
  let nextCursor := if hasMore then lastKey.map (emitCursor scope) else none
  return { items := pageItems, total := items.length, nextCursor, hasMore, legacyCursor := reading.legacy? }

end Pages

end CrashLab.Pagination
