import CrashLab.Fallible
import CrashLab.IdempotencyStore
import CrashLab.NumberTexts

namespace CrashLab.LedgerDiff

open Decimals Fallible Idempotency JsStrings JsonTexts NumberTexts

section Values

def text (s : String) : JsString := ofString s

def characters : Bool → JsString → List Char
  | _, [] => []
  | escaped, u :: rest =>
    if isHigh u ∧ (rest.head?.any isLow) then
      match rest with
      | [] => []
      | low :: rest => charOfPair u low :: characters false rest
    else if isSurrogate u then (if escaped then ['x'] else '\\' :: 'u' :: hex4 u.toNat) ++ characters false rest
    else charOfUnit u :: characters (!escaped && u == 0x5C) rest

mutual

/-- A value as `JSON.parse` makes it: doubles for numbers, and each key of an object once. -/
def loaded : Json → Json
  | .number n => .number (toNumber n)
  | .array items => .array (loadedItems items)
  | .object members => .object (fromEntries (loadedMembers members))
  | value => value

def loadedItems : List Json → List Json
  | [] => []
  | item :: items => loaded item :: loadedItems items

def loadedMembers : List (JsString × Json) → List (JsString × Json)
  | [] => []
  | (key, value) :: members => (key, loaded value) :: loadedMembers members

end

def jsonParse (raw : JsString) : Option Json := (parse (characters false raw)).map loaded

mutual

/-- What `JSON.stringify` writes: it has no infinite number. -/
def written : Json → Json
  | .number n => if n = infinite true ∨ n = infinite false then .null else .number n
  | .array items => .array (writtenItems items)
  | .object members => .object (writtenMembers members)
  | value => value

def writtenItems : List Json → List Json
  | [] => []
  | item :: items => written item :: writtenItems items

def writtenMembers : List (JsString × Json) → List (JsString × Json)
  | [] => []
  | (key, value) :: members => (key, written value) :: writtenMembers members

end

def jsonStringify (value : Json) : List Char := stringify (written value)

inductive ValueType where
  | null
  | boolean
  | number
  | string
  | array
  | object
  | bytes
deriving DecidableEq, Repr

def typeOf : Json → ValueType
  | .null => .null
  | .bool _ => .boolean
  | .number _ => .number
  | .string _ => .string
  | .array _ => .array
  | .object _ => .object

structure ParsedValue where
  value : Json
  type : ValueType
  parseFailed : Bool

def isHexDigit (u : UInt16) : Bool :=
  (0x30 ≤ u && u ≤ 0x39) || (0x41 ≤ u && u ≤ 0x46) || (0x61 ≤ u && u ≤ 0x66)

def parseValue (raw : Option JsString) : ParsedValue :=
  match raw with
  | none => ⟨.null, .null, false⟩
  | some [] => ⟨.null, .null, false⟩
  | some raw =>
    match jsonParse raw with
    | some parsed => ⟨parsed, typeOf parsed, false⟩
    | none => if raw.all isHexDigit ∧ raw.length % 2 = 0 then ⟨.string raw, .bytes, false⟩ else ⟨.string raw, .string, true⟩

end Values

section Fields

/-- `Cannot convert undefined or null to object` -/
inductive TypeError where
  | nullToObject
deriving DecidableEq, Repr

inductive DiffOpType where
  | added
  | removed
  | changed
  | unchanged
deriving DecidableEq, Repr

structure DiffField where
  key : JsString
  type : DiffOpType
  before : Option Json := none
  after : Option Json := none
  parseFailed : Bool

def maxDiffDepth : ℕ := 5

def indexKey (index : ℕ) : JsString := text (toString index)

def properties : Json → List (JsString × Json)
  | .string s => s.mapIdx fun index u => (indexKey index, .string [u])
  | .array items => items.mapIdx fun index item => (indexKey index, item)
  | .object members => members
  | _ => []

/-- `Object.keys` -/
def keys : Json → Except TypeError (List JsString)
  | .null => .error .nullToObject
  | value => .ok ((properties value).map Prod.fst)

def lengthOf : Json → Option ℕ
  | .string s => some s.length
  | .array items => some items.length
  | _ => none

def ownProperty (value : Json) (key : JsString) : Option Json :=
  match KeyedLists.get Prod.fst key (properties value) with
  | some property => some property.2
  | none => if key = text "length" then (lengthOf value).map fun n => .number (Decimal.ofNat n) else none

def rereads (value : Json) : Bool := (parseValue (some (ofString (String.ofList (jsonStringify value))))).parseFailed

def isObject : Json → Bool
  | .object _ => true
  | _ => false

def diffField (nested : Json → Json → Except TypeError (List DiffField × Bool)) (before after : Json) (key : JsString) :
    Except TypeError DiffField :=
  match ownProperty before key, ownProperty after key with
  | none, some afterVal => .ok { key, type := .added, after := some afterVal, parseFailed := rereads afterVal }
  | some beforeVal, none => .ok { key, type := .removed, before := some beforeVal, parseFailed := rereads beforeVal }
  | some beforeVal, some afterVal =>
    if jsonStringify beforeVal ≠ jsonStringify afterVal then
      if isObject beforeVal && isObject afterVal then do
        let (_, parseFailed) ← nested beforeVal afterVal
        return { key, type := .changed, before := some beforeVal, after := some afterVal, parseFailed }
      else
        .ok { key, type := .changed, before := some beforeVal, after := some afterVal, parseFailed := rereads afterVal }
    else .ok { key, type := .unchanged, before := some beforeVal, parseFailed := false }
  -- no key of either is owned by neither
  | none, none => .ok { key, type := .unchanged, parseFailed := false }

/-- `diffObjects` with as many levels left as its depth is below the first that is cut off. -/
def diffObjects : ℕ → Json → Json → Except TypeError (List DiffField × Bool)
  | 0, _, _ => .ok ([], true)
  | levels + 1, before, after => do
    let beforeKeys ← keys before
    let afterKeys ← keys after
    let allKeys := beforeKeys ++ afterKeys.filter (· ∉ beforeKeys)
    let fields ← allKeys.mapM (diffField (diffObjects levels) before after)
    return (fields, fields.any DiffField.parseFailed)

end Fields

section Snapshots

inductive LedgerChangeType where
  | created
  | updated
  | deleted
deriving DecidableEq, Repr

structure LedgerStateChange where
  id : JsString
  entryType : JsString
  changeType : LedgerChangeType
  before : Option JsString := none
  after : Option JsString := none

structure RunSnapshot where
  runId : JsString
  contractId : JsString
  schemaHash : JsString
  ledgerState : List LedgerStateChange

structure ComparabilityCheck where
  compatible : Bool
  reason : Option JsString := none

structure DiffOperation where
  type : DiffOpType
  key : JsString
  ledgerKey : JsString
  entryType : JsString
  changeType : LedgerChangeType
  before : Option Json := none
  after : Option Json := none
  fieldDiffs : Option (List DiffField) := none
  depth : ℕ := 0
  parseFailed : Bool

structure Summary where
  total : ℕ
  added : ℕ
  removed : ℕ
  changed : ℕ
  unchanged : ℕ

structure Metadata where
  leftRunId : JsString
  rightRunId : JsString
  leftContractId : JsString
  rightContractId : JsString
  leftSchemaHash : JsString
  rightSchemaHash : JsString

structure DiffResult where
  operations : List DiffOperation
  summary : Summary
  comparability : ComparabilityCheck
  metadata : Metadata

def mismatch (what left right : JsString) : JsString :=
  what ++ text " mismatch: \"" ++ left ++ text "\" vs \"" ++ right ++ text "\""

def checkComparability (left right : RunSnapshot) : ComparabilityCheck :=
  if left.contractId ≠ right.contractId then
    { compatible := false, reason := some (mismatch (text "Contract ID") left.contractId right.contractId) }
  else if left.schemaHash ≠ right.schemaHash then
    { compatible := false, reason := some (mismatch (text "Schema hash") left.schemaHash right.schemaHash) }
  else { compatible := true }

def entryAt (snapshot : RunSnapshot) (id : JsString) : Option LedgerStateChange :=
  snapshot.ledgerState.reverse.find? fun entry => entry.id = id

def ParsedValue.compared (parsed : ParsedValue) : Json := if parsed.parseFailed then .object [] else parsed.value

def compareEntries (key : JsString) (leftEntry rightEntry : LedgerStateChange) : Except TypeError DiffOperation := do
  let beforeParsed := parseValue leftEntry.before
  let afterParsed := parseValue rightEntry.after
  let (fields, parseFailed) ← diffObjects maxDiffDepth beforeParsed.compared afterParsed.compared
  let fieldChanges := fields.countP fun field => field.type ≠ .unchanged
  let type :=
    if fieldChanges = 0 ∧ leftEntry.changeType = rightEntry.changeType then DiffOpType.unchanged
    else if leftEntry.changeType = .created ∧ rightEntry.changeType = .created then .added
    else if leftEntry.changeType = .deleted ∧ rightEntry.changeType = .deleted then .removed
    else .changed
  return { type
           key := leftEntry.id
           ledgerKey := key
           entryType := leftEntry.entryType
           changeType := rightEntry.changeType
           before := some beforeParsed.value
           after := some afterParsed.value
           fieldDiffs := if fields = [] then none else some fields
           parseFailed := beforeParsed.parseFailed || afterParsed.parseFailed || parseFailed }

def diffEntry (left right : RunSnapshot) (key : JsString) : Except TypeError (Option DiffOperation) :=
  match entryAt left key, entryAt right key with
  | none, some rightEntry =>
    let parsed := parseValue rightEntry.after
    .ok (some
      { type := .added
        key := rightEntry.id
        ledgerKey := key
        entryType := rightEntry.entryType
        changeType := rightEntry.changeType
        after := some parsed.value
        parseFailed := parsed.parseFailed })
  | some leftEntry, none =>
    let parsed := parseValue leftEntry.before
    .ok (some
      { type := .removed
        key := leftEntry.id
        ledgerKey := key
        entryType := leftEntry.entryType
        changeType := leftEntry.changeType
        before := some parsed.value
        parseFailed := parsed.parseFailed })
  | some leftEntry, some rightEntry => some <$> compareEntries key leftEntry rightEntry
  | none, none => .ok none

def summarize (operations : List DiffOperation) : Summary where
  total := operations.length
  added := operations.countP (·.type = .added)
  removed := operations.countP (·.type = .removed)
  changed := operations.countP (·.type = .changed)
  unchanged := operations.countP (·.type = .unchanged)

def metadata (left right : RunSnapshot) : Metadata where
  leftRunId := left.runId
  rightRunId := right.runId
  leftContractId := left.contractId
  rightContractId := right.contractId
  leftSchemaHash := left.schemaHash
  rightSchemaHash := right.schemaHash

def sortedKeys (left right : RunSnapshot) : List JsString :=
  Sorting.sortByKey sortKey ((left.ledgerState ++ right.ledgerState).map LedgerStateChange.id).dedup

def diffLedgerSnapshots (left right : RunSnapshot) : Except TypeError DiffResult :=
  let comparability := checkComparability left right
  if comparability.compatible then do
    let operations := (← (sortedKeys left right).mapM (diffEntry left right)).reduceOption
    return { operations, summary := summarize operations, comparability, metadata := metadata left right }
  else .ok { operations := [], summary := summarize [], comparability, metadata := metadata left right }

end Snapshots

section Totality

def jsonOf (raw : Option JsString) : Option Json := raw.bind jsonParse

/-- There is no state to compare: nothing is recorded, or the empty text, or `null`. -/
def Absent (raw : Option JsString) : Prop := raw = none ∨ raw = some [] ∨ jsonOf raw = some .null

theorem compared_parseValue_eq_null (raw : Option JsString) : (parseValue raw).compared = .null ↔ Absent raw := by
  unfold Absent jsonOf
  match raw with
  | none => simp [parseValue, ParsedValue.compared]
  | some [] => simp [parseValue, ParsedValue.compared]
  | some (u :: raw) =>
    simp only [parseValue, Option.bind_some]
    cases hparse : jsonParse (u :: raw) with
    | some parsed => simp [ParsedValue.compared]
    | none =>
      split_ifs
      · simp [ParsedValue.compared]
      · simp [ParsedValue.compared]

theorem diffField_ok {nested : Json → Json → Except TypeError (List DiffField × Bool)}
    (hnested : ∀ v w, v ≠ .null → w ≠ .null → ∃ r, nested v w = .ok r) (before after : Json) (key : JsString) :
    ∃ field, diffField nested before after key = .ok field := by
  unfold diffField
  split
  · exact ⟨_, rfl⟩
  · exact ⟨_, rfl⟩
  · next beforeVal afterVal _ _ =>
    split_ifs with hdiffer hobjects
    · rw [Bool.and_eq_true] at hobjects
      have hbefore : beforeVal ≠ .null := by
        rintro rfl
        cases hobjects.1
      have hafter : afterVal ≠ .null := by
        rintro rfl
        cases hobjects.2
      obtain ⟨r, hr⟩ := hnested beforeVal afterVal hbefore hafter
      rw [hr]
      exact ⟨_, rfl⟩
    · exact ⟨_, rfl⟩
    · exact ⟨_, rfl⟩
  · exact ⟨_, rfl⟩

theorem keys_of_ne_null {value : Json} (h : value ≠ .null) : keys value = .ok ((properties value).map Prod.fst) := by
  cases value with
  | null => exact absurd rfl h
  | _ => rfl

theorem diffObjects_ok (levels : ℕ) {before after : Json} (hbefore : before ≠ .null) (hafter : after ≠ .null) :
    ∃ r, diffObjects levels before after = .ok r := by
  induction levels generalizing before after with
  | zero => exact ⟨_, rfl⟩
  | succ levels ih =>
    rw [diffObjects, keys_of_ne_null hbefore, keys_of_ne_null hafter]
    obtain ⟨fields, hfields⟩ := mapM_ok_iff.mpr fun key (_ : key ∈ (properties before).map Prod.fst ++
      ((properties after).map Prod.fst).filter (· ∉ (properties before).map Prod.fst)) =>
        diffField_ok (fun v w hv hw => ih hv hw) before after key
    simp only [bind, Except.bind] at hfields ⊢
    rw [hfields]
    exact ⟨_, rfl⟩

theorem diffObjects_ok_iff (levels : ℕ) (before after : Json) :
    (∃ r, diffObjects (levels + 1) before after = .ok r) ↔ before ≠ .null ∧ after ≠ .null := by
  constructor
  · rintro ⟨r, hr⟩
    rw [diffObjects] at hr
    obtain ⟨beforeKeys, hbefore, hr⟩ := bind_eq_ok.mp hr
    obtain ⟨afterKeys, hafter, -⟩ := bind_eq_ok.mp hr
    constructor
    · rintro rfl
      cases hbefore
    · rintro rfl
      cases hafter
  · rintro ⟨hbefore, hafter⟩
    exact diffObjects_ok (levels + 1) hbefore hafter

theorem compareEntries_ok_iff (key : JsString) (leftEntry rightEntry : LedgerStateChange) :
    (∃ op, compareEntries key leftEntry rightEntry = .ok op) ↔ ¬Absent leftEntry.before ∧ ¬Absent rightEntry.after := by
  rw [← compared_parseValue_eq_null, ← compared_parseValue_eq_null, ← ne_eq, ← ne_eq, ← diffObjects_ok_iff 4]
  constructor
  · rintro ⟨op, hop⟩
    obtain ⟨r, hr, -⟩ := bind_eq_ok.mp hop
    exact ⟨r, hr⟩
  · rintro ⟨r, hr⟩
    exact ⟨_, bind_eq_ok.mpr ⟨r, hr, rfl⟩⟩

theorem mem_sortedKeys {left right : RunSnapshot} {id : JsString} :
    id ∈ sortedKeys left right ↔ ∃ entry ∈ left.ledgerState ++ right.ledgerState, entry.id = id := by
  rw [sortedKeys, Sorting.mem_sortByKey, List.mem_dedup, List.mem_map]

theorem mem_of_entryAt {snapshot : RunSnapshot} {id : JsString} {entry : LedgerStateChange}
    (h : entryAt snapshot id = some entry) : entry ∈ snapshot.ledgerState ∧ entry.id = id := by
  rw [entryAt] at h
  have hid := List.find?_some h
  exact ⟨List.mem_reverse.mp (List.mem_of_find?_eq_some h), of_decide_eq_true hid⟩

theorem diffLedgerSnapshots_returns_iff {left right : RunSnapshot}
    (hcompatible : (checkComparability left right).compatible = true) :
    (∃ result, diffLedgerSnapshots left right = .ok result) ↔ ∀ id leftEntry rightEntry,
      entryAt left id = some leftEntry → entryAt right id = some rightEntry →
        ¬Absent leftEntry.before ∧ ¬Absent rightEntry.after := by
  have hall : (∃ result, diffLedgerSnapshots left right = .ok result) ↔
      ∀ id ∈ sortedKeys left right, ∃ op, diffEntry left right id = .ok op := by
    rw [← mapM_ok_iff, diffLedgerSnapshots, if_pos hcompatible]
    constructor
    · rintro ⟨result, hresult⟩
      obtain ⟨operations, hoperations, -⟩ := bind_eq_ok.mp hresult
      exact ⟨operations, hoperations⟩
    · rintro ⟨operations, hoperations⟩
      exact ⟨_, bind_eq_ok.mpr ⟨operations, hoperations, rfl⟩⟩
  rw [hall]
  constructor
  · intro hops id leftEntry rightEntry hleft hright
    have hmem : id ∈ sortedKeys left right := by
      obtain ⟨hentry, hid⟩ := mem_of_entryAt hleft
      exact mem_sortedKeys.mpr ⟨leftEntry, List.mem_append_left _ hentry, hid⟩
    obtain ⟨op, hop⟩ := hops id hmem
    rw [diffEntry, hleft, hright] at hop
    dsimp only at hop
    rw [← compareEntries_ok_iff id]
    cases hcompare : compareEntries id leftEntry rightEntry with
    | ok op => exact ⟨op, rfl⟩
    | error e =>
      rw [hcompare] at hop
      cases hop
  · intro hstates id _
    rw [diffEntry]
    cases hleft : entryAt left id with
    | none =>
      cases entryAt right id with
      | none => exact ⟨_, rfl⟩
      | some rightEntry => exact ⟨_, rfl⟩
    | some leftEntry =>
      cases hright : entryAt right id with
      | none => exact ⟨_, rfl⟩
      | some rightEntry =>
        obtain ⟨op, hop⟩ := (compareEntries_ok_iff id leftEntry rightEntry).mpr (hstates id _ _ hleft hright)
        dsimp only
        rw [hop]
        exact ⟨_, rfl⟩

def creatingRun (runId : String) : RunSnapshot where
  runId := text runId
  contractId := text "contract-123"
  schemaHash := text "sha256:abc123"
  ledgerState :=
    [{ id := text "key-1"
       entryType := text "ContractData"
       changeType := .created
       after := some (text "\x7b\"allowance\":5000\x7d") }]

theorem creatingRuns_returns_iff : (∃ result, diffLedgerSnapshots (creatingRun "run-1") (creatingRun "run-2") = .ok result) ↔
    ∀ id leftEntry rightEntry, entryAt (creatingRun "run-1") id = some leftEntry →
      entryAt (creatingRun "run-2") id = some rightEntry → ¬Absent leftEntry.before ∧ ¬Absent rightEntry.after :=
  diffLedgerSnapshots_returns_iff (by decide +kernel)

theorem creatingRuns_throw : (checkComparability (creatingRun "run-1") (creatingRun "run-2")).compatible = true ∧
    diffLedgerSnapshots (creatingRun "run-1") (creatingRun "run-2") = .error .nullToObject :=
  ⟨by decide +kernel, rfl⟩

end Totality

end CrashLab.LedgerDiff
