import CrashLab.RecordDrivers

namespace CrashLab.Records

open JsStrings Redis Histories

section Statement

variable {σ : Type} (server : Server σ JsString JsString JsString)

def Call.key : Call → JsString
  | .putRecord key _ | .getRecord key | .updateRecordIfPresent key _ | .deleteRecord key | .addToIndex key _
  | .removeFromIndex key _ | .listIndex key | .clearIndex key | .appendEntry key _ _ | .listEntries key _
  | .countEntries key | .trimEntries key _ => key

def Call.kind : Call → Kind
  | .putRecord .. | .getRecord .. | .updateRecordIfPresent .. | .deleteRecord .. => .string
  | .addToIndex .. | .removeFromIndex .. | .listIndex .. | .clearIndex .. => .set
  | .appendEntry .. | .listEntries .. | .countEntries .. | .trimEntries .. => .list

def Call.Bounded : Call → Prop
  | .appendEntry _ _ limit | .listEntries _ limit | .trimEntries _ limit => limit ≤ 10000
  | _ => True

structure Drivers (σ : Type) where
  memory : InMemoryRecordDriver
  redis : RedisRecordDriver σ

def Drivers.empty : Drivers σ := ⟨.empty, .empty server⟩

def Drivers.step (drivers : Drivers σ) (call : Call) : Drivers σ :=
  ⟨(drivers.memory.perform call).2, (drivers.redis.perform server call).2⟩

def InMemoryRecordDriver.log (driver : InMemoryRecordDriver) (key : JsString) : List JsString :=
  (driver.entries key).getD []

def RedisRecordDriver.log (driver : RedisRecordDriver σ) (key : JsString) : List JsString :=
  asList (server.keys driver.redis key)

def newest (log : List JsString) (limit : ℤ) : List JsString := log.drop (log.length - limit.toNat)

def Drivers.KeepsNewest (drivers : Drivers σ) : Call → Prop
  | .listEntries key limit => 0 < limit →
    (drivers.memory.perform (.listEntries key limit)).1 =
      .entries (newest (drivers.memory.log key) limit).reverse
  | .trimEntries key keep => 0 < keep →
    (drivers.step server (.trimEntries key keep)).memory.log key = newest (drivers.memory.log key) keep ∧
      (drivers.step server (.trimEntries key keep)).redis.log server key = newest (drivers.redis.log server key) keep
  | _ => True

def Drivers.Agree (drivers : Drivers σ) (call : Call) : Prop :=
  (drivers.memory.perform call).1 = (drivers.redis.perform server call).1 ∧ drivers.KeepsNewest server call

def Overlong (log : List JsString) (limit : ℤ) : Prop := (log.length : ℤ) < limit ∧ limit < 2 * log.length

def Drivers.NotOverlong (drivers : Drivers σ) : Call → Prop
  | .listEntries key limit | .trimEntries key limit => ¬ Overlong (drivers.memory.log key) limit
  | _ => True

instance Drivers.NotOverlong.decidable (drivers : Drivers σ) : ∀ call, Decidable (drivers.NotOverlong call)
  | .listEntries key limit | .trimEntries key limit =>
    inferInstanceAs (Decidable (¬ ((drivers.memory.log key).length < limit ∧
      limit < 2 * (drivers.memory.log key).length)))
  | .putRecord .. | .getRecord .. | .updateRecordIfPresent .. | .deleteRecord .. | .addToIndex ..
  | .removeFromIndex .. | .listIndex .. | .clearIndex .. | .appendEntry .. | .countEntries .. => isTrue trivial

def Drivers.Safe (drivers : Drivers σ) (call : Call) : Prop :=
  Fits (server.keys drivers.redis.redis) call.key call.kind ∧ drivers.NotOverlong call

instance Drivers.Safe.decidable (drivers : Drivers σ) (call : Call) : Decidable (drivers.Safe server call) :=
  inferInstanceAs (Decidable (_ ∧ _))

end Statement

section Simulation

abbrev OverKeys := Drivers (Keyspace JsString JsString JsString)

structure Mirrors (drivers : OverKeys) : Prop where
  records : ∀ key, drivers.memory.records key = asString (drivers.redis.redis key)
  indexes : ∀ key, (drivers.memory.indexes key).getD ∅ = asSet (drivers.redis.redis key)
  entries : ∀ key, (drivers.memory.entries key).getD [] = asList (drivers.redis.redis key)
  short : ∀ key, (asList (drivers.redis.redis key)).length ≤ 10000

theorem Mirrors.empty : Mirrors (.empty .keyspace) where
  records := fun _ => rfl
  indexes := fun _ => rfl
  entries := fun _ => rfl
  short := fun _ => Nat.zero_le _

theorem slice_newest {log : List JsString} {limit : ℤ} (hpos : 0 < limit) (h : ¬ Overlong log limit) :
    InMemoryRecordDriver.slice log (log.length - limit) = newest log limit := by
  unfold InMemoryRecordDriver.slice newest
  unfold Overlong at h
  congr 1
  split_ifs <;> omega

theorem range_newest {log : List JsString} {limit : ℤ} (hpos : 0 < limit) :
    range log (-limit) (-1) = newest log limit := range_last log hpos

theorem newest_of_length_le {log : List JsString} {limit : ℤ} (h : log.length ≤ limit.toNat) :
    newest log limit = log := by
  rw [newest, Nat.sub_eq_zero_of_le h, List.drop_zero]

variable {drivers : OverKeys}

theorem Mirrors.listEntries (mirrors : Mirrors drivers) {key : JsString} {limit : ℤ} (hbounded : limit ≤ 10000)
    (hfits : Fits drivers.redis.redis key .list) (hsafe : ¬ Overlong (drivers.memory.log key) limit) :
    drivers.redis.listEntries .keyspace key limit = some (drivers.memory.listEntries key limit) ∧
      (0 < limit → drivers.memory.listEntries key limit = (newest (drivers.memory.log key) limit).reverse) := by
  have hentries : asList (drivers.redis.redis key) = drivers.memory.log key := (mirrors.entries key).symm
  have hshort : (drivers.memory.log key).length ≤ 10000 := hentries ▸ mirrors.short key
  have hmemory : drivers.memory.listEntries key limit =
      (InMemoryRecordDriver.slice (drivers.memory.log key) ((drivers.memory.log key).length -
        if limit > 0 then limit else (drivers.memory.log key).length)).reverse := rfl
  have hredis : drivers.redis.listEntries .keyspace key limit =
      some (range (drivers.memory.log key) (-(if limit > 0 then min limit maxReadEntries else maxReadEntries))
        (-1)).reverse := by
    unfold RedisRecordDriver.listEntries
    dsimp only
    rw [Server.keyspace_lrange, lrange, items_of_fits hfits, hentries]
    rfl
  rw [hmemory, hredis]
  by_cases hpos : 0 < limit
  · have hmin : min limit maxReadEntries = limit := min_eq_left hbounded
    rw [if_pos hpos, if_pos hpos, hmin, range_newest hpos, slice_newest hpos hsafe]
    exact ⟨rfl, fun _ => rfl⟩
  · rw [if_neg hpos, if_neg hpos, range_newest (by decide), newest_of_length_le hshort, sub_self]
    exact ⟨rfl, fun h => absurd h hpos⟩

theorem Mirrors.trimEntries (mirrors : Mirrors drivers) {key : JsString} {keep : ℤ} (hpos : 0 < keep)
    (hfits : Fits drivers.redis.redis key .list) (hsafe : ¬ Overlong (drivers.memory.log key) keep) :
    (∀ k, (drivers.memory.trimEntries key keep).log k =
        if k = key then newest (drivers.memory.log key) keep else drivers.memory.log k) ∧
      drivers.redis.trimEntries .keyspace key keep =
        some ⟨storeList drivers.redis.redis key (newest (drivers.memory.log key) keep)⟩ := by
  have hentries : asList (drivers.redis.redis key) = drivers.memory.log key := (mirrors.entries key).symm
  constructor
  · intro k
    unfold InMemoryRecordDriver.trimEntries
    rw [if_neg (by omega)]
    cases hlist : drivers.memory.entries key with
    | none =>
      have hlog : drivers.memory.log key = [] := by rw [InMemoryRecordDriver.log, hlist, Option.getD_none]
      split_ifs with hk
      · rw [hk, hlog, newest_of_length_le (Nat.zero_le _)]
      · rfl
    | some list =>
      have hlog : drivers.memory.log key = list := by rw [InMemoryRecordDriver.log, hlist, Option.getD_some]
      rw [hlog] at hsafe
      simp only [slice_newest hpos hsafe, InMemoryRecordDriver.log, InMemoryRecordDriver.setEntries,
        Function.update_apply, hlist, Option.getD_some]
      split_ifs <;> rfl
  · unfold RedisRecordDriver.trimEntries
    rw [if_neg (by omega), Server.keyspace_ltrim, ltrim, items_of_fits hfits, hentries]
    simp only [Option.map_some, range_newest hpos]

def entryCap (maxEntries : ℤ) : ℤ := if maxEntries > 0 then maxEntries else defaultMaxEntries

theorem entryCap_pos (maxEntries : ℤ) : 0 < entryCap maxEntries := by
  unfold entryCap
  split_ifs with h
  · exact h
  · decide

theorem entryCap_le {maxEntries : ℤ} (h : maxEntries ≤ 10000) : entryCap maxEntries ≤ 10000 := by
  unfold entryCap
  split_ifs
  · exact h
  · exact le_refl _

theorem memory_appendEntry (memory : InMemoryRecordDriver) (key entry : JsString) (maxEntries : ℤ) :
    memory.appendEntry key entry maxEntries =
      memory.setEntries key (some (newest (memory.log key ++ [entry]) (entryCap maxEntries))) := by
  have hcap := entryCap_pos maxEntries
  have hunfold : memory.appendEntry key entry maxEntries = memory.setEntries key (some
      (if ((memory.log key ++ [entry]).length : ℤ) > entryCap maxEntries then
        (memory.log key ++ [entry]).drop ((memory.log key ++ [entry]).length - entryCap maxEntries).toNat
      else memory.log key ++ [entry])) := rfl
  rw [hunfold]
  congr 2
  split_ifs with hlong
  · unfold newest
    congr 1
    omega
  · exact (newest_of_length_le (by omega)).symm

theorem Mirrors.appendEntry (mirrors : Mirrors drivers) {key : JsString} (entry : JsString) (maxEntries : ℤ)
    (hfits : Fits drivers.redis.redis key .list) :
    drivers.redis.appendEntry .keyspace key entry maxEntries = some ⟨storeList drivers.redis.redis key
      (newest (drivers.memory.log key ++ [entry]) (entryCap maxEntries))⟩ := by
  have hentries : asList (drivers.redis.redis key) = drivers.memory.log key := (mirrors.entries key).symm
  have hpush : rpush drivers.redis.redis key entry =
      some (storeList drivers.redis.redis key (drivers.memory.log key ++ [entry])) := by
    rw [rpush, items_of_fits hfits, hentries, Option.map_some]
  have htrim : ltrim (storeList drivers.redis.redis key (drivers.memory.log key ++ [entry])) key
      (-entryCap maxEntries) (-1) = some (storeList drivers.redis.redis key
        (newest (drivers.memory.log key ++ [entry]) (entryCap maxEntries))) := by
    rw [ltrim, items_storeList, Option.map_some, range_newest (entryCap_pos maxEntries)]
    congr 1
    exact Function.update_idem _ _ _
  unfold RedisRecordDriver.appendEntry
  rw [Server.keyspace_rpush, hpush]
  change (ltrim _ key (-entryCap maxEntries) (-1)).bind _ = _
  rw [htrim]
  rfl

theorem Mirrors.withRecord (mirrors : Mirrors drivers) {key : JsString} (hfits : Fits drivers.redis.redis key .string)
    (record : Option JsString) {redis : Keyspace JsString JsString JsString}
    (hstring : ∀ k, asString (redis k) = if k = key then record else asString (drivers.redis.redis k))
    (hset : ∀ k, asSet (redis k) = if k = key then ∅ else asSet (drivers.redis.redis k))
    (hlist : ∀ k, asList (redis k) = if k = key then [] else asList (drivers.redis.redis k)) :
    Mirrors ⟨{ drivers.memory with records := Function.update drivers.memory.records key record }, ⟨redis⟩⟩ where
  records := by
    intro k
    rw [hstring, ← mirrors.records]
    exact Function.update_apply ..
  indexes := by
    intro k
    rw [hset, mirrors.indexes]
    split_ifs with hk
    · rw [hk, asSet_of_fits hfits (by decide)]
    · rfl
  entries := by
    intro k
    rw [hlist, mirrors.entries]
    split_ifs with hk
    · rw [hk, asList_of_fits hfits (by decide)]
    · rfl
  short := by
    intro k
    rw [hlist]
    split_ifs
    · exact Nat.zero_le _
    · exact mirrors.short k

theorem Mirrors.withIndex (mirrors : Mirrors drivers) {key : JsString} (hfits : Fits drivers.redis.redis key .set)
    {index : Option (Finset JsString)} {redis : Keyspace JsString JsString JsString}
    (hstring : ∀ k, asString (redis k) = if k = key then none else asString (drivers.redis.redis k))
    (hset : ∀ k, asSet (redis k) = if k = key then index.getD ∅ else asSet (drivers.redis.redis k))
    (hlist : ∀ k, asList (redis k) = if k = key then [] else asList (drivers.redis.redis k)) :
    Mirrors ⟨drivers.memory.setIndex key index, ⟨redis⟩⟩ where
  records := by
    intro k
    rw [hstring, ← mirrors.records]
    split_ifs with hk
    · rw [hk]
      exact (mirrors.records key).trans (asString_of_fits hfits (by decide))
    · rfl
  indexes := by
    intro k
    rw [hset, ← mirrors.indexes]
    change (Function.update drivers.memory.indexes key index k).getD ∅ = _
    rw [Function.update_apply]
    split_ifs <;> rfl
  entries := by
    intro k
    rw [hlist]
    refine (mirrors.entries k).trans ?_
    split_ifs with hk
    · rw [hk, asList_of_fits hfits (by decide)]
    · rfl
  short := by
    intro k
    rw [hlist]
    split_ifs
    · exact Nat.zero_le _
    · exact mirrors.short k

theorem Mirrors.withLog (mirrors : Mirrors drivers) {key : JsString} (hfits : Fits drivers.redis.redis key .list)
    {log : List JsString} (hshort : log.length ≤ 10000) {memory : InMemoryRecordDriver}
    {redis : Keyspace JsString JsString JsString} (hrecords : memory.records = drivers.memory.records)
    (hindexes : memory.indexes = drivers.memory.indexes)
    (hentries : ∀ k, memory.log k = if k = key then log else drivers.memory.log k)
    (hstring : ∀ k, asString (redis k) = if k = key then none else asString (drivers.redis.redis k))
    (hset : ∀ k, asSet (redis k) = if k = key then ∅ else asSet (drivers.redis.redis k))
    (hlist : ∀ k, asList (redis k) = if k = key then log else asList (drivers.redis.redis k)) :
    Mirrors ⟨memory, ⟨redis⟩⟩ where
  records := by
    intro k
    rw [hstring]
    refine (congrFun hrecords k).trans ((mirrors.records k).trans ?_)
    split_ifs with hk
    · rw [hk, asString_of_fits hfits (by decide)]
    · rfl
  indexes := by
    intro k
    rw [hset]
    refine (congrArg (·.getD ∅) (congrFun hindexes k)).trans ((mirrors.indexes k).trans ?_)
    split_ifs with hk
    · rw [hk, asSet_of_fits hfits (by decide)]
    · rfl
  entries := by
    intro k
    rw [hlist, ← mirrors.entries]
    exact hentries k
  short := by
    intro k
    rw [hlist]
    split_ifs
    · exact hshort
    · exact mirrors.short k

theorem log_setEntries (memory : InMemoryRecordDriver) (key : JsString) (list : Option (List JsString))
    (k : JsString) : (memory.setEntries key list).log k = if k = key then list.getD [] else memory.log k := by
  change (Function.update memory.entries key list k).getD [] = _
  rw [Function.update_apply]
  split_ifs <;> rfl

theorem length_newest_le {log : List JsString} {limit : ℤ} (hpos : 0 < limit) (h : limit ≤ 10000) :
    (newest log limit).length ≤ 10000 := by
  rw [newest, List.length_drop]
  omega

theorem Mirrors.performRecord (mirrors : Mirrors drivers) {call : Call} (hkind : call.kind = .string)
    (hfits : Fits drivers.redis.redis call.key .string) :
    drivers.Agree .keyspace call ∧ Mirrors (drivers.step .keyspace call) := by
  have hthere := isSome_of_fits hfits
  rw [← mirrors.records] at hthere
  cases call with
  | putRecord key value =>
    refine ⟨⟨rfl, trivial⟩, ?_⟩
    exact mirrors.withRecord hfits (some value) (fun _ => asString_set ..) (fun _ => asSet_set ..)
      (fun _ => asList_set ..)
  | getRecord key =>
    have hget : drivers.redis.perform .keyspace (.getRecord key) = (.record (drivers.memory.records key), drivers.redis) := by
      have hrecord : Redis.get drivers.redis.redis key = some (drivers.memory.records key) :=
        (get_of_fits hfits).trans (congrArg some (mirrors.records key).symm)
      simp [RedisRecordDriver.perform, RedisRecordDriver.getRecord, hrecord, RedisRecordDriver.settle]
    refine ⟨⟨?_, trivial⟩, ?_⟩
    · rw [hget]
      rfl
    · rw [Drivers.step, hget]
      exact mirrors
  | updateRecordIfPresent key value =>
    change (drivers.redis.redis key).isSome = (drivers.memory.records key).isSome at hthere
    cases hrecord : (drivers.memory.records key).isSome with
    | false =>
      have hmemory : drivers.memory.perform (.updateRecordIfPresent key value) = (.flag false, drivers.memory) := by
        simp [InMemoryRecordDriver.perform, InMemoryRecordDriver.updateRecordIfPresent, hrecord]
      have hredis : drivers.redis.perform .keyspace (.updateRecordIfPresent key value) = (.flag false, drivers.redis) := by
        simp [RedisRecordDriver.perform, RedisRecordDriver.updateRecordIfPresent, setExisting, hthere, hrecord]
      rw [Drivers.Agree, Drivers.step, hmemory, hredis]
      exact ⟨⟨rfl, trivial⟩, mirrors⟩
    | true =>
      have hmemory : drivers.memory.perform (.updateRecordIfPresent key value) =
          (.flag true, drivers.memory.putRecord key value) := by
        simp [InMemoryRecordDriver.perform, InMemoryRecordDriver.updateRecordIfPresent, hrecord]
      have hredis : drivers.redis.perform .keyspace (.updateRecordIfPresent key value) =
          (.flag true, drivers.redis.putRecord .keyspace key value) := by
        simp [RedisRecordDriver.perform, RedisRecordDriver.updateRecordIfPresent, RedisRecordDriver.putRecord,
          setExisting, hthere, hrecord]
      rw [Drivers.Agree, Drivers.step, hmemory, hredis]
      exact ⟨⟨rfl, trivial⟩, mirrors.withRecord hfits (some value) (fun _ => asString_set ..)
        (fun _ => asSet_set ..) (fun _ => asList_set ..)⟩
  | deleteRecord key =>
    refine ⟨⟨congrArg Reply.flag hthere.symm, trivial⟩, ?_⟩
    exact mirrors.withRecord hfits none (fun _ => asString_del ..) (fun _ => asSet_del ..) (fun _ => asList_del ..)
  | _ => cases hkind

theorem Mirrors.performIndex (mirrors : Mirrors drivers) {call : Call} (hkind : call.kind = .set)
    (hfits : Fits drivers.redis.redis call.key .set) :
    drivers.Agree .keyspace call ∧ Mirrors (drivers.step .keyspace call) := by
  have hmembers := smembers_of_fits hfits
  rw [← mirrors.indexes] at hmembers
  cases call with
  | addToIndex indexKey member =>
    change smembers drivers.redis.redis indexKey = some ((drivers.memory.indexes indexKey).getD ∅) at hmembers
    have hmemory : drivers.memory.addToIndex indexKey member = drivers.memory.setIndex indexKey
        (some (insert member ((drivers.memory.indexes indexKey).getD ∅))) := by
      unfold InMemoryRecordDriver.addToIndex
      cases drivers.memory.indexes indexKey <;> rfl
    have hredis : drivers.redis.perform .keyspace (.addToIndex indexKey member) = (.done, ⟨storeSet drivers.redis.redis indexKey
        (insert member ((drivers.memory.indexes indexKey).getD ∅))⟩) := by
      simp [RedisRecordDriver.perform, RedisRecordDriver.addToIndex, sadd, hmembers, RedisRecordDriver.settle]
    rw [Drivers.Agree, Drivers.step, hredis]
    refine ⟨⟨rfl, trivial⟩, ?_⟩
    change Mirrors ⟨drivers.memory.addToIndex indexKey member, _⟩
    rw [hmemory]
    exact mirrors.withIndex hfits (fun _ => asString_storeSet ..) (fun _ => asSet_storeSet ..)
      (fun _ => asList_storeSet ..)
  | removeFromIndex indexKey member =>
    change smembers drivers.redis.redis indexKey = some ((drivers.memory.indexes indexKey).getD ∅) at hmembers
    have hmemory : drivers.memory.removeFromIndex indexKey member = drivers.memory.setIndex indexKey
        ((drivers.memory.indexes indexKey).map (·.erase member)) := by
      unfold InMemoryRecordDriver.removeFromIndex
      cases hindex : drivers.memory.indexes indexKey with
      | none =>
        change drivers.memory = drivers.memory.setIndex indexKey none
        rw [← hindex, InMemoryRecordDriver.setIndex, Function.update_eq_self]
      | some existing => rfl
    have hredis : drivers.redis.perform .keyspace (.removeFromIndex indexKey member) =
        (.done, ⟨storeSet drivers.redis.redis indexKey
          (((drivers.memory.indexes indexKey).map (·.erase member)).getD ∅)⟩) := by
      simp only [RedisRecordDriver.perform, RedisRecordDriver.removeFromIndex, Server.keyspace_srem, srem, hmembers, Option.map_some,
        RedisRecordDriver.settle, Option.getD_some]
      cases drivers.memory.indexes indexKey <;> rfl
    rw [Drivers.Agree, Drivers.step, hredis]
    refine ⟨⟨rfl, trivial⟩, ?_⟩
    change Mirrors ⟨drivers.memory.removeFromIndex indexKey member, _⟩
    rw [hmemory]
    exact mirrors.withIndex hfits (fun _ => asString_storeSet ..) (fun _ => asSet_storeSet ..)
      (fun _ => asList_storeSet ..)
  | listIndex indexKey =>
    change smembers drivers.redis.redis indexKey = some ((drivers.memory.indexes indexKey).getD ∅) at hmembers
    have hredis : drivers.redis.perform .keyspace (.listIndex indexKey) =
        (.members ((drivers.memory.indexes indexKey).getD ∅), drivers.redis) := by
      simp [RedisRecordDriver.perform, RedisRecordDriver.listIndex, hmembers, RedisRecordDriver.settle]
    rw [Drivers.Agree, Drivers.step, hredis]
    exact ⟨⟨rfl, trivial⟩, mirrors⟩
  | clearIndex indexKey =>
    refine ⟨⟨rfl, trivial⟩, ?_⟩
    exact mirrors.withIndex hfits (fun _ => asString_del ..) (fun _ => asSet_del ..) (fun _ => asList_del ..)
  | _ => cases hkind

theorem trimEntries_rest (memory : InMemoryRecordDriver) (key : JsString) (keep : ℤ) :
    (memory.trimEntries key keep).records = memory.records ∧
      (memory.trimEntries key keep).indexes = memory.indexes := by
  unfold InMemoryRecordDriver.trimEntries
  split_ifs
  · exact ⟨rfl, rfl⟩
  · cases memory.entries key <;> exact ⟨rfl, rfl⟩

theorem Mirrors.performEntry (mirrors : Mirrors drivers) {call : Call} (hkind : call.kind = .list)
    (hbounded : call.Bounded) (hfits : Fits drivers.redis.redis call.key .list) (hlong : drivers.NotOverlong call) :
    drivers.Agree .keyspace call ∧ Mirrors (drivers.step .keyspace call) := by
  cases call with
  | appendEntry key entry maxEntries =>
    replace hfits : Fits drivers.redis.redis key .list := hfits
    have hredis : drivers.redis.perform .keyspace (.appendEntry key entry maxEntries) =
        (.done, ⟨storeList drivers.redis.redis key
          (newest (drivers.memory.log key ++ [entry]) (entryCap maxEntries))⟩) := by
      simp [RedisRecordDriver.perform, mirrors.appendEntry entry maxEntries hfits, RedisRecordDriver.settle]
    rw [Drivers.Agree, Drivers.step, hredis]
    refine ⟨⟨rfl, trivial⟩, ?_⟩
    change Mirrors ⟨drivers.memory.appendEntry key entry maxEntries, _⟩
    rw [memory_appendEntry]
    exact mirrors.withLog hfits (length_newest_le (entryCap_pos maxEntries) (entryCap_le hbounded)) rfl rfl
      (fun _ => log_setEntries ..) (fun _ => asString_storeList ..) (fun _ => asSet_storeList ..)
      (fun _ => asList_storeList ..)
  | listEntries key limit =>
    replace hfits : Fits drivers.redis.redis key .list := hfits
    obtain ⟨hlist, hnewest⟩ := mirrors.listEntries hbounded hfits hlong
    have hredis : drivers.redis.perform .keyspace (.listEntries key limit) =
        (.entries (drivers.memory.listEntries key limit), drivers.redis) := by
      simp [RedisRecordDriver.perform, hlist, RedisRecordDriver.settle]
    rw [Drivers.Agree, Drivers.step, hredis]
    exact ⟨⟨rfl, fun hpos => congrArg Reply.entries (hnewest hpos)⟩, mirrors⟩
  | countEntries key =>
    replace hfits : Fits drivers.redis.redis key .list := hfits
    have hcount : drivers.redis.countEntries .keyspace key = some (drivers.memory.countEntries key) := by
      have hentries : asList (drivers.redis.redis key) = (drivers.memory.entries key).getD [] :=
        (mirrors.entries key).symm
      rw [RedisRecordDriver.countEntries, Server.keyspace_llen, llen, items_of_fits hfits, InMemoryRecordDriver.countEntries]
      change some (asList (drivers.redis.redis key)).length = _
      rw [hentries]
      cases drivers.memory.entries key <;> rfl
    have hredis : drivers.redis.perform .keyspace (.countEntries key) =
        (.count (drivers.memory.countEntries key), drivers.redis) := by
      simp [RedisRecordDriver.perform, hcount, RedisRecordDriver.settle]
    rw [Drivers.Agree, Drivers.step, hredis]
    exact ⟨⟨rfl, trivial⟩, mirrors⟩
  | trimEntries key keep =>
    replace hfits : Fits drivers.redis.redis key .list := hfits
    by_cases hpos : 0 < keep
    · obtain ⟨hmemory, htrim⟩ := mirrors.trimEntries hpos hfits hlong
      have hredis : drivers.redis.perform .keyspace (.trimEntries key keep) =
          (.done, ⟨storeList drivers.redis.redis key (newest (drivers.memory.log key) keep)⟩) := by
        simp [RedisRecordDriver.perform, htrim, RedisRecordDriver.settle]
      have hlog : drivers.redis.log .keyspace key = drivers.memory.log key := (mirrors.entries key).symm
      refine ⟨⟨congrArg Prod.fst hredis.symm, fun _ => ⟨?_, ?_⟩⟩, ?_⟩
      · exact (hmemory key).trans (if_pos rfl)
      · rw [Drivers.step, hredis, hlog]
        exact (asList_storeList ..).trans (if_pos rfl)
      · rw [Drivers.step, hredis]
        obtain ⟨hrecords, hindexes⟩ := trimEntries_rest drivers.memory key keep
        exact mirrors.withLog hfits (length_newest_le hpos hbounded) hrecords hindexes hmemory
          (fun _ => asString_storeList ..) (fun _ => asSet_storeList ..) (fun _ => asList_storeList ..)
    · have hnone : keep ≤ 0 := by omega
      have hredis : drivers.redis.perform .keyspace (.trimEntries key keep) = (.done, ⟨(del drivers.redis.redis key).2⟩) := by
        simp [RedisRecordDriver.perform, RedisRecordDriver.trimEntries, hnone, RedisRecordDriver.settle]
      have hmemory : drivers.memory.perform (.trimEntries key keep) = (.done, drivers.memory.setEntries key none) := by
        simp [InMemoryRecordDriver.perform, InMemoryRecordDriver.trimEntries, hnone]
      rw [Drivers.Agree, Drivers.step, hredis, hmemory]
      have hempty : ([] : List JsString).length ≤ 10000 := Nat.zero_le _
      exact ⟨⟨rfl, fun h => absurd h hpos⟩, mirrors.withLog hfits hempty rfl rfl
        (fun _ => log_setEntries ..) (fun _ => asString_del ..) (fun _ => asSet_del ..) (fun _ => asList_del ..)⟩
  | _ => cases hkind

theorem Mirrors.perform (mirrors : Mirrors drivers) {call : Call} (hbounded : call.Bounded)
    (hsafe : drivers.Safe .keyspace call) : drivers.Agree .keyspace call ∧ Mirrors (drivers.step .keyspace call) := by
  obtain ⟨hfits, hlong⟩ := hsafe
  cases hkind : call.kind with
  | string => exact mirrors.performRecord hkind (hkind ▸ hfits)
  | set => exact mirrors.performIndex hkind (hkind ▸ hfits)
  | list => exact mirrors.performEntry hkind hbounded (hkind ▸ hfits) hlong

variable {σ : Type} (server : Server σ JsString JsString JsString)

def Drivers.onKeys (drivers : Drivers σ) : OverKeys := ⟨drivers.memory, drivers.redis.onKeys server⟩

theorem empty_onKeys : (Drivers.empty server).onKeys server = .empty .keyspace := by
  have hempty : server.keys server.empty = fun _ => none := funext server.keys_empty
  rw [Drivers.onKeys, Drivers.empty, RedisRecordDriver.onKeys, RedisRecordDriver.empty, hempty]
  rfl

theorem step_onKeys (drivers : Drivers σ) (call : Call) :
    (drivers.onKeys server).step .keyspace call = (drivers.step server call).onKeys server := by
  rw [Drivers.step, Drivers.onKeys, ← RedisRecordDriver.perform_onKeys]
  rfl

theorem agree_onKeys {drivers : Drivers σ} {call : Call} :
    (drivers.onKeys server).Agree .keyspace call → drivers.Agree server call := by
  rintro ⟨hreply, hnewest⟩
  constructor
  · rw [Drivers.onKeys, ← RedisRecordDriver.perform_onKeys] at hreply
    exact hreply
  · cases call with
    | trimEntries key keep =>
      unfold Drivers.KeepsNewest at hnewest
      dsimp only at hnewest
      rw [step_onKeys] at hnewest
      exact hnewest
    | _ => exact hnewest

theorem drivers_agree {calls : List Call} (limits : ∀ call ∈ calls, call.Bounded)
    (safe : EachStep (Drivers.step server) (Drivers.Safe server) (.empty server) calls) :
    EachStep (Drivers.step server) (Drivers.Agree server) (.empty server) calls := by
  have hboth := (eachStep_and (T := fun _ call => call.Bounded) (Drivers.empty server) calls).mpr
    ⟨EachStep.of_forall limits _, safe⟩
  apply hboth.imp (I := fun drivers => Mirrors (drivers.onKeys server))
  · intro drivers call mirrors h
    rw [← step_onKeys]
    exact (mirrors.perform h.1 h.2).2
  · intro drivers call mirrors h
    exact agree_onKeys server (mirrors.perform h.1 h.2).1
  · rw [empty_onKeys]
    exact Mirrors.empty

end Simulation

section Sample

def auditLog : JsString := ofString "audit"

def appends : List Call :=
  [.appendEntry auditLog (ofString "a") 100, .appendEntry auditLog (ofString "b") 100]

theorem full_reads_agree :
    EachStep (Drivers.step .keyspace) (Drivers.Agree .keyspace) (.empty .keyspace) (appends ++ [.listEntries auditLog 2, .trimEntries auditLog 4]) :=
  drivers_agree .keyspace (by simp [appends, Call.Bounded]) (by decide +kernel)

theorem overlong_read_disagrees :
    (∀ call ∈ appends ++ [.listEntries auditLog 3], call.Bounded) ∧
      ¬ EachStep (Drivers.step .keyspace) (Drivers.Agree .keyspace) (.empty .keyspace) (appends ++ [.listEntries auditLog 3]) := by
  refine ⟨by simp [appends, Call.Bounded], ?_⟩
  rintro ⟨-, -, ⟨hreplies, -⟩, -⟩
  exact absurd hreplies (by decide +kernel)

end Sample

end CrashLab.Records
