import CrashLab.Histories
import CrashLab.JsStrings
import CrashLab.Redis

namespace CrashLab.Records

open JsStrings Redis

def defaultMaxEntries : ℤ := 10000

def maxReadEntries : ℤ := 10000

inductive Call where
  | putRecord (key value : JsString)
  | getRecord (key : JsString)
  | updateRecordIfPresent (key value : JsString)
  | deleteRecord (key : JsString)
  | addToIndex (indexKey member : JsString)
  | removeFromIndex (indexKey member : JsString)
  | listIndex (indexKey : JsString)
  | clearIndex (indexKey : JsString)
  | appendEntry (key entry : JsString) (maxEntries : ℤ)
  | listEntries (key : JsString) (limit : ℤ)
  | countEntries (key : JsString)
  | trimEntries (key : JsString) (keep : ℤ)
deriving DecidableEq

/-- What a call's promise settles to; `failed` is a rejection. -/
inductive Reply where
  | done
  | record (value : Option JsString)
  | flag (b : Bool)
  | members (members : Finset JsString)
  | entries (entries : List JsString)
  | count (n : ℕ)
  | failed
deriving DecidableEq

section InMemory

structure InMemoryRecordDriver where
  records : JsString → Option JsString
  indexes : JsString → Option (Finset JsString)
  entries : JsString → Option (List JsString)

namespace InMemoryRecordDriver

def empty : InMemoryRecordDriver := ⟨fun _ => none, fun _ => none, fun _ => none⟩

/-- `slice` with one argument: a negative start counts from the end. -/
def slice (list : List JsString) (start : ℤ) : List JsString :=
  list.drop (if start < 0 then (list.length + start).toNat else start.toNat)

variable (driver : InMemoryRecordDriver)

def setEntries (key : JsString) (list : Option (List JsString)) : InMemoryRecordDriver :=
  { driver with entries := Function.update driver.entries key list }

def setIndex (indexKey : JsString) (members : Option (Finset JsString)) : InMemoryRecordDriver :=
  { driver with indexes := Function.update driver.indexes indexKey members }

def getRecord (key : JsString) : Option JsString := driver.records key

def putRecord (key value : JsString) : InMemoryRecordDriver :=
  { driver with records := Function.update driver.records key (some value) }

def updateRecordIfPresent (key value : JsString) : Bool × InMemoryRecordDriver :=
  if (driver.records key).isSome then (true, driver.putRecord key value) else (false, driver)

def deleteRecord (key : JsString) : Bool × InMemoryRecordDriver :=
  ((driver.records key).isSome, { driver with records := Function.update driver.records key none })

def addToIndex (indexKey member : JsString) : InMemoryRecordDriver :=
  match driver.indexes indexKey with
  | some existing => driver.setIndex indexKey (some (insert member existing))
  | none => driver.setIndex indexKey (some {member})

def removeFromIndex (indexKey member : JsString) : InMemoryRecordDriver :=
  match driver.indexes indexKey with
  | some existing => driver.setIndex indexKey (some (existing.erase member))
  | none => driver

def listIndex (indexKey : JsString) : Finset JsString := (driver.indexes indexKey).getD ∅

def clearIndex (indexKey : JsString) : InMemoryRecordDriver := driver.setIndex indexKey none

def appendEntry (key entry : JsString) (maxEntries : ℤ) : InMemoryRecordDriver :=
  let list := (driver.entries key).getD [] ++ [entry]
  let cap := if maxEntries > 0 then maxEntries else defaultMaxEntries
  driver.setEntries key (some (if (list.length : ℤ) > cap then list.drop (list.length - cap).toNat else list))

def listEntries (key : JsString) (limit : ℤ) : List JsString :=
  let list := (driver.entries key).getD []
  let bounded := if limit > 0 then limit else list.length
  (slice list (list.length - bounded)).reverse

def countEntries (key : JsString) : ℕ := ((driver.entries key).map List.length).getD 0

def trimEntries (key : JsString) (keep : ℤ) : InMemoryRecordDriver :=
  if keep ≤ 0 then driver.setEntries key none
  else
    match driver.entries key with
    | none => driver
    | some list => driver.setEntries key (some (slice list (list.length - keep)))

def perform : Call → Reply × InMemoryRecordDriver
  | .putRecord key value => (.done, driver.putRecord key value)
  | .getRecord key => (.record (driver.getRecord key), driver)
  | .updateRecordIfPresent key value => (driver.updateRecordIfPresent key value).map .flag id
  | .deleteRecord key => (driver.deleteRecord key).map .flag id
  | .addToIndex indexKey member => (.done, driver.addToIndex indexKey member)
  | .removeFromIndex indexKey member => (.done, driver.removeFromIndex indexKey member)
  | .listIndex indexKey => (.members (driver.listIndex indexKey), driver)
  | .clearIndex indexKey => (.done, driver.clearIndex indexKey)
  | .appendEntry key entry maxEntries => (.done, driver.appendEntry key entry maxEntries)
  | .listEntries key limit => (.entries (driver.listEntries key limit), driver)
  | .countEntries key => (.count (driver.countEntries key), driver)
  | .trimEntries key keep => (.done, driver.trimEntries key keep)

end InMemoryRecordDriver

end InMemory

section OverRedis

structure RedisRecordDriver (σ : Type) where
  redis : σ

namespace RedisRecordDriver

variable {σ : Type} (server : Server σ JsString JsString JsString)

def empty : RedisRecordDriver σ := ⟨server.empty⟩

variable (driver : RedisRecordDriver σ)

def getRecord (key : JsString) : Option (Option JsString) := server.get driver.redis key

def putRecord (key value : JsString) : RedisRecordDriver σ := ⟨server.set driver.redis key value⟩

def updateRecordIfPresent (key value : JsString) : Bool × RedisRecordDriver σ :=
  (server.setExisting driver.redis key value).map id RedisRecordDriver.mk

def deleteRecord (key : JsString) : Bool × RedisRecordDriver σ :=
  (server.del driver.redis key).map id RedisRecordDriver.mk

def addToIndex (indexKey member : JsString) : Option (RedisRecordDriver σ) :=
  (server.sadd driver.redis indexKey member).map RedisRecordDriver.mk

def removeFromIndex (indexKey member : JsString) : Option (RedisRecordDriver σ) :=
  (server.srem driver.redis indexKey member).map fun removed => ⟨removed.2⟩

def listIndex (indexKey : JsString) : Option (Finset JsString) := server.smembers driver.redis indexKey

def clearIndex (indexKey : JsString) : RedisRecordDriver σ := ⟨(server.del driver.redis indexKey).2⟩

def appendEntry (key entry : JsString) (maxEntries : ℤ) : Option (RedisRecordDriver σ) := do
  let cap := if maxEntries > 0 then maxEntries else defaultMaxEntries
  let pushed ← server.rpush driver.redis key entry
  let trimmed ← server.ltrim pushed key (-cap) (-1)
  return ⟨trimmed⟩

def listEntries (key : JsString) (limit : ℤ) : Option (List JsString) := do
  let bounded := if limit > 0 then min limit maxReadEntries else maxReadEntries
  let entries ← server.lrange driver.redis key (-bounded) (-1)
  return entries.reverse

def countEntries (key : JsString) : Option ℕ := server.llen driver.redis key

def trimEntries (key : JsString) (keep : ℤ) : Option (RedisRecordDriver σ) :=
  if keep ≤ 0 then some ⟨(server.del driver.redis key).2⟩
  else (server.ltrim driver.redis key (-keep) (-1)).map RedisRecordDriver.mk

/-- A refused command rejects the call and leaves everything as it was. -/
def settle (result : Option (Reply × RedisRecordDriver σ)) : Reply × RedisRecordDriver σ :=
  result.getD (.failed, driver)

def perform : Call → Reply × RedisRecordDriver σ
  | .putRecord key value => (.done, driver.putRecord server key value)
  | .getRecord key => driver.settle ((driver.getRecord server key).map fun value => (.record value, driver))
  | .updateRecordIfPresent key value => (driver.updateRecordIfPresent server key value).map .flag id
  | .deleteRecord key => (driver.deleteRecord server key).map .flag id
  | .addToIndex indexKey member =>
    driver.settle ((driver.addToIndex server indexKey member).map fun next => (.done, next))
  | .removeFromIndex indexKey member =>
    driver.settle ((driver.removeFromIndex server indexKey member).map fun next => (.done, next))
  | .listIndex indexKey => driver.settle ((driver.listIndex server indexKey).map fun found => (.members found, driver))
  | .clearIndex indexKey => (.done, driver.clearIndex server indexKey)
  | .appendEntry key entry maxEntries =>
    driver.settle ((driver.appendEntry server key entry maxEntries).map fun next => (.done, next))
  | .listEntries key limit =>
    driver.settle ((driver.listEntries server key limit).map fun found => (.entries found, driver))
  | .countEntries key => driver.settle ((driver.countEntries server key).map fun n => (.count n, driver))
  | .trimEntries key keep =>
    driver.settle ((driver.trimEntries server key keep).map fun next => (.done, next))

section Keys

def onKeys : RedisRecordDriver (Keyspace JsString JsString JsString) := ⟨server.keys driver.redis⟩

theorem settle_onKeys (result : Option (Reply × RedisRecordDriver σ)) :
    (driver.settle result).map id (onKeys server) =
      (driver.onKeys server).settle (result.map (Prod.map id (onKeys server))) := by
  cases result <;> rfl

variable {driver}

theorem map_onKeys {next : Option σ} {keys : Option (Keyspace JsString JsString JsString)}
    (h : next.map server.keys = keys) :
    (((next.map RedisRecordDriver.mk).map fun d => (Reply.done, d)).map (Prod.map id (onKeys server))) =
      (keys.map RedisRecordDriver.mk).map fun d => (Reply.done, d) := by
  subst h
  cases next <;> rfl

variable (driver)

theorem appendEntry_onKeys (key entry : JsString) (maxEntries : ℤ) :
    (driver.appendEntry server key entry maxEntries).map (onKeys server) =
      (driver.onKeys server).appendEntry .keyspace key entry maxEntries := by
  have hpush := server.keys_rpush driver.redis key entry
  change _ = (Redis.rpush (server.keys driver.redis) key entry).bind fun pushed =>
    (Redis.ltrim pushed key (-if maxEntries > 0 then maxEntries else defaultMaxEntries) (-1)).bind
      fun trimmed => some (mk trimmed)
  unfold appendEntry
  rw [← hpush]
  cases server.rpush driver.redis key entry with
  | none => rfl
  | some pushed =>
    rw [Option.map_some, Option.bind_some, ← server.keys_ltrim]
    simp only [Option.bind_eq_bind, Option.bind_some]
    cases server.ltrim pushed key (-if maxEntries > 0 then maxEntries else defaultMaxEntries) (-1) <;> rfl

theorem perform_onKeys (call : Call) :
    (driver.perform server call).map id (onKeys server) = (driver.onKeys server).perform .keyspace call := by
  cases call with
  | putRecord key value =>
    have hkeys := server.keys_set driver.redis key value
    simp only [perform, putRecord, Prod.map_apply, id_eq, onKeys, hkeys]
    rfl
  | getRecord key =>
    simp only [perform, getRecord, settle_onKeys, Option.map_map, server.get_keys]
    rfl
  | updateRecordIfPresent key value =>
    change _ = ((Redis.setExisting (server.keys driver.redis) key value).map id mk).map Reply.flag id
    rw [← server.keys_setExisting]
    rfl
  | deleteRecord key =>
    change _ = ((Redis.del (server.keys driver.redis) key).map id mk).map Reply.flag id
    rw [← server.keys_del]
    rfl
  | addToIndex indexKey member =>
    rw [perform, settle_onKeys, addToIndex, map_onKeys server (server.keys_sadd driver.redis indexKey member)]
    rfl
  | removeFromIndex indexKey member =>
    rw [perform, settle_onKeys, removeFromIndex]
    change _ = settle _ (((Redis.srem (server.keys driver.redis) indexKey member).map fun removed =>
      ⟨removed.2⟩).map fun next => (.done, next))
    rw [← server.keys_srem]
    cases server.srem driver.redis indexKey member <;> rfl
  | listIndex indexKey =>
    simp only [perform, listIndex, settle_onKeys, Option.map_map, server.smembers_keys]
    rfl
  | clearIndex indexKey =>
    change _ = (Reply.done, mk (Redis.del (server.keys driver.redis) indexKey).2)
    rw [← server.keys_del]
    rfl
  | appendEntry key entry maxEntries =>
    rw [perform, settle_onKeys, perform, ← appendEntry_onKeys, Option.map_map, Option.map_map]
    rfl
  | listEntries key limit =>
    rw [perform, settle_onKeys, perform, listEntries, listEntries, server.lrange_keys, Option.map_map]
    rfl
  | countEntries key =>
    simp only [perform, countEntries, settle_onKeys, Option.map_map, server.llen_keys]
    rfl
  | trimEntries key keep =>
    rw [perform, settle_onKeys, perform, trimEntries, trimEntries]
    split_ifs
    · change _ = settle _ (((some (mk (Redis.del (server.keys driver.redis) key).2)).map fun next => (.done, next)))
      rw [← server.keys_del]
      rfl
    · rw [map_onKeys server (server.keys_ltrim driver.redis key (-keep) (-1))]
      rfl

end Keys

end RedisRecordDriver

end OverRedis

end CrashLab.Records
