import CrashLab.Histories
import CrashLab.JsonTexts
import CrashLab.Objects
import CrashLab.Redis

namespace CrashLab.Runs

open JsStrings JsonTexts Decimals Objects Redis

section Types

/-- A run as JSON; beside `id` no method here reads a field. -/
structure FuzzingRun where
  id : JsString
  rest : List (JsString × Json)

def FuzzingRun.value (run : FuzzingRun) : Json := .object ((ofString "id", .string run.id) :: run.rest)

inductive ArtifactType where
  | seed
  | log
  | trace
  | coverage
  | bundle
deriving DecidableEq

def ArtifactType.text : ArtifactType → JsString
  | .seed => ofString "seed"
  | .log => ofString "log"
  | .trace => ofString "trace"
  | .coverage => ofString "coverage"
  | .bundle => ofString "bundle"

def artifactTypes : List ArtifactType := [.seed, .log, .trace, .coverage, .bundle]

inductive ContentType where
  | json
  | text
  | hex
  | unknown
deriving DecidableEq

structure Artifact where
  id : JsString
  name : JsString
  type : ArtifactType
  size : Decimal
  updatedAt : JsString
  createdAt : Option JsString := none
  runId : Option JsString := none
  contentHash : Option JsString := none
  contentType : Option ContentType := none
deriving DecidableEq

structure StoredArtifact where
  metadata : Artifact
  bytes : List UInt8
deriving DecidableEq

inductive Call where
  | getRun (id : JsString)
  | putArtifact (runId : JsString) (artifact : Artifact) (bytes : List UInt8)
  | getArtifact (id : JsString)
  | deleteRun (id : JsString)
deriving DecidableEq

inductive Reply where
  | run (run : Option Json)
  | metadata (metadata : Artifact)
  | stored (artifact : Option StoredArtifact)
  | deleted (existed : Bool)
  | failed

/-- A reply without the bytes, which one driver does not keep. -/
def Reply.withoutBytes : Reply → Reply
  | .stored artifact => .stored (artifact.map fun a => { a with bytes := [] })
  | reply => reply

end Types

section InMemory

structure InMemoryRunDriver where
  runs : JsString → Option FuzzingRun
  artifacts : JsString → Option StoredArtifact

namespace InMemoryRunDriver

def create (runs : List FuzzingRun) : InMemoryRunDriver where
  runs := runs.foldl (fun map run => Function.update map run.id (some run)) fun _ => none
  artifacts := fun _ => none

variable (driver : InMemoryRunDriver)

def getRun (id : JsString) : Option Json := (driver.runs id).map FuzzingRun.value

def putArtifact (runId : JsString) (artifact : Artifact) (bytes : List UInt8) : Artifact × InMemoryRunDriver :=
  let metadata := { artifact with runId := some runId }
  (metadata, { driver with artifacts := Function.update driver.artifacts artifact.id (some ⟨metadata, bytes⟩) })

def getArtifact (id : JsString) : Option StoredArtifact := driver.artifacts id

def deleteRun (id : JsString) : Bool × InMemoryRunDriver :=
  ((driver.runs id).isSome, {
    runs := Function.update driver.runs id none
    artifacts := fun artifactId => (driver.artifacts artifactId).filter fun a => a.metadata.runId ≠ some id })

def perform : Call → Reply × InMemoryRunDriver
  | .getRun id => (.run (driver.getRun id), driver)
  | .putArtifact runId artifact bytes => (driver.putArtifact runId artifact bytes).map .metadata id
  | .getArtifact id => (.stored (driver.getArtifact id), driver)
  | .deleteRun runId => (driver.deleteRun runId).map .deleted id

end InMemoryRunDriver

end InMemory

section Records

structure KVArtifactRecord where
  id : JsString
  name : JsString
  type : JsString
  size : Decimal
  updatedAt : JsString
  runId : Option JsString
  utKey : JsString
  utUrl : JsString
deriving DecidableEq

def KVArtifactRecord.members (record : KVArtifactRecord) : List (JsString × Json) := [
  (ofString "id", .string record.id), (ofString "name", .string record.name), (ofString "type", .string record.type),
  (ofString "size", .number record.size), (ofString "updatedAt", .string record.updatedAt),
  (ofString "runId", (record.runId.map Json.string).getD .null), (ofString "utKey", .string record.utKey),
  (ofString "utUrl", .string record.utUrl)]

def asText : Json → Option JsString
  | .string s => some s
  | _ => none

def asNumber : Json → Option Decimal
  | .number n => some n
  | _ => none

/-- What `getArtifact` reads off a record; every record in the store was written by `putArtifact`. -/
def metadataOf (record : Json) : Option Artifact := do
  let id ← (record.get (ofString "id")).bind asText
  let name ← (record.get (ofString "name")).bind asText
  let typeText ← (record.get (ofString "type")).bind asText
  let type ← artifactTypes.find? (·.text = typeText)
  let size ← (record.get (ofString "size")).bind asNumber
  let updatedAt ← (record.get (ofString "updatedAt")).bind asText
  return {
    id := id, name := name, type := type, size := size, updatedAt := updatedAt
    runId := (record.get (ofString "runId")).bind asText }

end Records

section OverRedis

abbrev Keys := Keyspace JsString (List Char) JsString

def runIndex : JsString := ofString "run:index"

def artifactIndex : JsString := ofString "artifact:index"

def runKey (id : JsString) : JsString := ofString "run:" ++ id

def artifactKey (id : JsString) : JsString := ofString "artifact:" ++ id

def artifactRunKey (runId : JsString) : JsString := ofString "artifact:run:" ++ runId

structure KVRunDriver (σ : Type) where
  redis : σ

namespace KVRunDriver

variable {σ : Type} (server : Server σ JsString (List Char) JsString)

/-- `none` where a command is refused; what was written before it stays. -/
def putRun (redis : σ) (run : FuzzingRun) : Bool × σ :=
  let written := server.set redis (runKey run.id) (stringify run.value)
  match server.sadd written runIndex run.id with
  | none => (false, written)
  | some indexed => (true, indexed)

def create (runs : List FuzzingRun) : KVRunDriver σ :=
  ⟨runs.foldl (fun redis run => (putRun server redis run).2) server.empty⟩

variable (driver : KVRunDriver σ)

def getRun (id : JsString) : Reply :=
  match server.get driver.redis (runKey id) with
  | none => .failed
  | some none => .run none
  | some (some raw) =>
    if raw = [] then .run none
    else
      match parse raw with
      | none => .failed
      | some run => .run (some run)

/-- The members `...existing` adds, unless the read or the parse fails. -/
def existingMembers (redis : σ) (artifactId : JsString) : Option (List (JsString × Json)) :=
  match server.get redis (artifactKey artifactId) with
  | none => none
  | some none => some []
  | some (some raw) =>
    if raw = [] then some []
    else
      match parse raw with
      | none => none
      | some (.object members) => some members
      | some _ => some []

def putArtifact (runId : JsString) (artifact : Artifact) : Reply × KVRunDriver σ :=
  match existingMembers server driver.redis artifact.id with
  | none => (.failed, driver)
  | some existing =>
    let fresh : KVArtifactRecord := {
      id := artifact.id, name := artifact.name, type := artifact.type.text, size := artifact.size
      updatedAt := artifact.updatedAt, runId := some runId, utKey := [], utUrl := [] }
    let written := server.set driver.redis (artifactKey artifact.id) (stringify (.object (spread fresh.members existing)))
    match server.sadd written artifactIndex artifact.id with
    | none => (.failed, ⟨written⟩)
    | some indexed =>
      match server.sadd indexed (artifactRunKey runId) artifact.id with
      | none => (.failed, ⟨indexed⟩)
      | some filed => (.metadata artifact, ⟨filed⟩)

def getArtifact (id : JsString) : Reply :=
  match server.get driver.redis (artifactKey id) with
  | none => .failed
  | some none => .stored none
  | some (some raw) =>
    if raw = [] then .stored none
    else
      match (parse raw).bind metadataOf with
      | none => .failed
      | some metadata => .stored (some ⟨metadata, []⟩)

/-- The loop over the artifacts of a deleted run; it ends where a command is refused. -/
def dropArtifacts (redis : σ) : List JsString → Bool × σ
  | [] => (true, redis)
  | artifactId :: rest =>
    let dropped := (server.del redis (artifactKey artifactId)).2
    match server.srem dropped artifactIndex artifactId with
    | none => (false, dropped)
    | some removed => dropArtifacts removed.2 rest

/-- `SMEMBERS` names no order; the artifacts are taken in that of their ids. -/
def deleteRun (id : JsString) : Reply × KVRunDriver σ :=
  match server.srem driver.redis runIndex id with
  | none => (.failed, driver)
  | some (existed, unindexed) =>
    let deleted := (server.del unindexed (runKey id)).2
    match server.smembers deleted (artifactRunKey id) with
    | none => (.failed, ⟨deleted⟩)
    | some artifactIds =>
      match dropArtifacts server deleted (artifactIds.sort (· ≤ ·)) with
      | (false, dropped) => (.failed, ⟨dropped⟩)
      | (true, dropped) => (.deleted existed, ⟨(server.del dropped (artifactRunKey id)).2⟩)

def perform : Call → Reply × KVRunDriver σ
  | .getRun id => (driver.getRun server id, driver)
  | .putArtifact runId artifact _ => driver.putArtifact server runId artifact
  | .getArtifact id => (driver.getArtifact server id, driver)
  | .deleteRun id => driver.deleteRun server id

section Keyspaces

def onKeys : KVRunDriver Keys := ⟨server.keys driver.redis⟩

theorem putRun_onKeys (redis : σ) (run : FuzzingRun) :
    (putRun server redis run).map id server.keys = putRun .keyspace (server.keys redis) run := by
  unfold putRun
  dsimp only
  rw [Server.keyspace_set, Server.keyspace_sadd, ← server.keys_set, ← server.keys_sadd]
  cases server.sadd (server.set redis (runKey run.id) (stringify run.value)) runIndex run.id <;> rfl

theorem create_onKeys (runs : List FuzzingRun) : (create server runs).onKeys server = create .keyspace runs := by
  have hempty : server.keys server.empty = fun _ => none := funext server.keys_empty
  have hput : ∀ redis run, (putRun .keyspace (server.keys redis) run).2 = server.keys (putRun server redis run).2 := by
    intro redis run
    rw [← putRun_onKeys]
    rfl
  have hruns : runs.foldl (fun redis run => (putRun .keyspace redis run).2) (server.keys server.empty) =
      server.keys (runs.foldl (fun redis run => (putRun server redis run).2) server.empty) :=
    List.foldl_hom server.keys hput
  rw [onKeys, create, create, ← hruns, hempty]
  rfl

theorem existingMembers_onKeys (redis : σ) (artifactId : JsString) :
    existingMembers server redis artifactId = existingMembers .keyspace (server.keys redis) artifactId := by
  unfold existingMembers
  rw [server.get_keys]
  rfl

theorem putArtifact_onKeys (runId : JsString) (artifact : Artifact) :
    (driver.putArtifact server runId artifact).map id (onKeys server) =
      (driver.onKeys server).putArtifact .keyspace runId artifact := by
  unfold putArtifact
  rw [existingMembers_onKeys, onKeys]
  cases existingMembers .keyspace (server.keys driver.redis) artifact.id with
  | none => rfl
  | some existing =>
    dsimp only
    rw [Server.keyspace_set, Server.keyspace_sadd, ← server.keys_set, ← server.keys_sadd]
    cases server.sadd _ artifactIndex artifact.id with
    | none => rfl
    | some indexed =>
      dsimp only [Option.map_some]
      rw [← server.keys_sadd]
      cases server.sadd indexed (artifactRunKey runId) artifact.id <;> rfl

theorem del_onKeys (redis : σ) (key : JsString) :
    (Redis.del (server.keys redis) key).2 = server.keys (server.del redis key).2 := by
  rw [← server.keys_del]
  rfl

theorem dropArtifacts_onKeys (redis : σ) (ids : List JsString) :
    (dropArtifacts server redis ids).map id server.keys = dropArtifacts .keyspace (server.keys redis) ids := by
  induction ids generalizing redis with
  | nil => rfl
  | cons artifactId rest ih =>
    unfold dropArtifacts
    dsimp only
    rw [Server.keyspace_del, del_onKeys, Server.keyspace_srem, ← server.keys_srem]
    cases server.srem (server.del redis (artifactKey artifactId)).2 artifactIndex artifactId with
    | none => rfl
    | some removed => exact ih removed.2

theorem deleteRun_onKeys (runId : JsString) :
    (driver.deleteRun server runId).map id (onKeys server) = (driver.onKeys server).deleteRun .keyspace runId := by
  unfold deleteRun
  rw [onKeys, Server.keyspace_srem, ← server.keys_srem]
  cases server.srem driver.redis runIndex runId with
  | none => rfl
  | some removed =>
    obtain ⟨existed, unindexed⟩ := removed
    dsimp only [Option.map_some, Prod.map_apply]
    rw [Server.keyspace_del, del_onKeys, Server.keyspace_smembers, ← server.smembers_keys]
    cases server.smembers (server.del unindexed (runKey runId)).2 (artifactRunKey runId) with
    | none => rfl
    | some artifactIds =>
      dsimp only
      rw [← dropArtifacts_onKeys]
      rcases dropArtifacts server (server.del unindexed (runKey runId)).2 (artifactIds.sort (· ≤ ·)) with ⟨flag, dropped⟩
      cases flag with
      | false => rfl
      | true =>
        dsimp only [Prod.map_apply, id_eq]
        rw [del_onKeys]
        rfl

theorem perform_onKeys (call : Call) :
    (driver.perform server call).map id (onKeys server) = (driver.onKeys server).perform .keyspace call := by
  cases call with
  | getRun id =>
    unfold perform getRun
    dsimp only
    rw [server.get_keys]
    rfl
  | putArtifact runId artifact bytes => exact putArtifact_onKeys server driver runId artifact
  | getArtifact id =>
    unfold perform getArtifact
    dsimp only
    rw [server.get_keys]
    rfl
  | deleteRun runId => exact deleteRun_onKeys server driver runId

end Keyspaces

end KVRunDriver

end OverRedis

end CrashLab.Runs
