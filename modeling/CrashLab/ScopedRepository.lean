import CrashLab.KeyedLists
import CrashLab.Objects
import CrashLab.TenantKeys

namespace CrashLab.Tenancy

open JsStrings JsonTexts KeyedLists Objects

section Ids

def base32 : JsString := ofString "abcdefghijklmnopqrstuvwxyz234567"

structure Base32State where
  bits : ℕ
  value : UInt32
  out : JsString

/-- `(value >>> shift) & 31`. -/
def base32Digit (value : UInt32) (shift : ℕ) : UInt16 := base32.getD (value.toNat / 2 ^ shift % 32) 0

/-- The inner `while`; a byte leaves at most two digits to hand out. -/
def Base32State.drain : ℕ → Base32State → Base32State
  | 0, state => state
  | fuel + 1, state =>
    if state.bits < 5 then state
    else
      Base32State.drain fuel {
        state with
        bits := state.bits - 5
        out := state.out ++ [base32Digit state.value (state.bits - 5)] }

def Base32State.push (state : Base32State) (byte : UInt8) : Base32State :=
  Base32State.drain 3 { state with bits := state.bits + 8, value := state.value <<< 8 ||| byte.toUInt32 }

def newTenantId (idPrefix : JsString) (bytes : List UInt8) : JsString :=
  let state := bytes.foldl Base32State.push ⟨0, 0, []⟩
  let out :=
    if 0 < state.bits then state.out ++ [base32Digit (state.value <<< (5 - state.bits).toUInt32) 0] else state.out
  idPrefix ++ ofString "_" ++ out

end Ids

section Scopes

structure TenantScope where
  orgId : JsString
  projectId : JsString
  principal : JsString
  orgId_valid : orgIdPattern orgId = true
  projectId_valid : projectIdPattern projectId = true
deriving DecidableEq

def TenantScope.tenant (scope : TenantScope) : JsString × JsString := (scope.orgId, scope.projectId)

def scopePrefix (scope : TenantScope) : Except StorageKeyError JsString := tenantKeyPrefix scope.orgId scope.projectId

def scopedStorageKey (scope : TenantScope) (relativeKey : JsString) : Except StorageKeyError JsString := do
  joinTenantKey (← scopePrefix scope) relativeKey

/-- The entry `auditTenantDenial` hands to its sink. -/
structure Denial where
  actor : JsString
  target : JsString
  reason : String
  operation : String
  scope : JsString
deriving DecidableEq

end Scopes

section Repository

abbrev Fields := Members JsString Json

def idMember (id : JsString) : JsString × Json := (ofString "id", .string id)

inductive Call where
  | create (record : Fields) (bytes : List UInt8)
  | get (id : JsString)
  | list
  | update (id : JsString) (patch : Fields)
  | delete (id : JsString)

structure ScopedCall where
  scope : TenantScope
  call : Call

inductive Reply where
  | record (record : Option Fields)
  | records (records : List Fields)
  | deleted (existed : Bool)
  | thrown (error : StorageKeyError)

/-- The backend is a map in insertion order; `owners` only serves the audit. -/
structure ScopedRepository where
  collection : JsString
  backend : List (JsString × Fields)
  owners : JsString → Option JsString
  denials : List Denial

namespace ScopedRepository

def create? (collection : JsString) : Option ScopedRepository :=
  if 2 ≤ collection.length ∧ collection.length ≤ 8 ∧ collection.all (fun u => 0x61 ≤ u.toNat && u.toNat ≤ 0x7A) then
    some ⟨collection, [], fun _ => none, []⟩
  else none

variable (repository : ScopedRepository) (scope : TenantScope)

def relativeKey (id : JsString) : JsString := repository.collection ++ slash :: id

def key (id : JsString) : Except StorageKeyError JsString := scopedStorageKey scope (repository.relativeKey id)

def find (key : JsString) : Option Fields := (KeyedLists.get Prod.fst key repository.backend).map Prod.snd

/-- `Map.set`: an entry keeps its place. -/
def setEntry (backend : List (JsString × Fields)) (entry : JsString × Fields) : List (JsString × Fields) :=
  assign backend entry

def auditIfForeign (id attemptedKey : JsString) (operation : String) : ScopedRepository :=
  match repository.owners id with
  | none => repository
  | some owner =>
    if owner = [] ∨ owner = attemptedKey then repository
    else { repository with
      denials := repository.denials ++ [{
        actor := scope.principal, target := repository.relativeKey id, reason := "cross_tenant"
        operation := operation, scope := prefixText scope.orgId scope.projectId }] }

def create (record : Fields) (bytes : List UInt8) : Reply × ScopedRepository :=
  let id := newTenantId repository.collection bytes
  match repository.key scope id with
  | .error error => (.thrown error, repository)
  | .ok key =>
    let stored := spread record [idMember id]
    (.record (some stored), { repository with
      backend := setEntry repository.backend (key, stored)
      owners := Function.update repository.owners id (some key) })

def get (id : JsString) : Reply × ScopedRepository :=
  match repository.key scope id with
  | .error error => (.thrown error, repository)
  | .ok key =>
    match repository.find key with
    | some found => (.record (some found), repository)
    | none => (.record none, repository.auditIfForeign scope id key "read")

def list : Reply × ScopedRepository :=
  match scopePrefix scope with
  | .error error => (.thrown error, repository)
  | .ok keyPrefix =>
    let collectionPrefix := keyPrefix ++ repository.collection ++ [slash]
    (.records ((repository.backend.filter fun entry => collectionPrefix.isPrefixOf entry.1).map Prod.snd), repository)

def update (id : JsString) (patch : Fields) : Reply × ScopedRepository :=
  match repository.key scope id with
  | .error error => (.thrown error, repository)
  | .ok key =>
    match repository.find key with
    | none => (.record none, repository.auditIfForeign scope id key "update")
    | some existing =>
      let updated := spread (spread existing patch) [idMember id]
      (.record (some updated), { repository with backend := setEntry repository.backend (key, updated) })

def delete (id : JsString) : Reply × ScopedRepository :=
  match repository.key scope id with
  | .error error => (.thrown error, repository)
  | .ok key =>
    match repository.find key with
    | some _ => (.deleted true, { repository with
        backend := KeyedLists.remove Prod.fst key repository.backend
        owners := Function.update repository.owners id none })
    | none => (.deleted false, repository.auditIfForeign scope id key "delete")

def perform (c : ScopedCall) : Reply × ScopedRepository :=
  match c.call with
  | .create record bytes => repository.create c.scope record bytes
  | .get id => repository.get c.scope id
  | .list => repository.list c.scope
  | .update id patch => repository.update c.scope id patch
  | .delete id => repository.delete c.scope id

end ScopedRepository

end Repository

end CrashLab.Tenancy
