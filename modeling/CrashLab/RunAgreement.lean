import CrashLab.RunDrivers

namespace CrashLab.Runs

open JsStrings JsonTexts Decimals Objects Redis Histories

section Statement

variable {σ : Type} (server : Server σ JsString (List Char) JsString)

structure Drivers (σ : Type) where
  memory : InMemoryRunDriver
  kv : KVRunDriver σ
  history : List Call

def Drivers.create (runs : List FuzzingRun) : Drivers σ := ⟨.create runs, .create server runs, []⟩

def Drivers.step (drivers : Drivers σ) (call : Call) : Drivers σ :=
  ⟨(drivers.memory.perform call).2, (drivers.kv.perform server call).2, call :: drivers.history⟩

def lastPut (id : JsString) : List Call → Option Artifact
  | [] => none
  | .putArtifact runId artifact _ :: older =>
    if artifact.id = id then some { artifact with runId := some runId } else lastPut id older
  | .deleteRun runId :: older => (lastPut id older).filter fun artifact => artifact.runId ≠ some runId
  | _ :: older => lastPut id older

def Drivers.ReadsLast (drivers : Drivers σ) : Call → Prop
  | .getArtifact id => (drivers.memory.perform (.getArtifact id)).1.withoutBytes =
    .stored ((lastPut id drivers.history).map fun metadata => ⟨metadata, []⟩)
  | _ => True

def Drivers.Agree (drivers : Drivers σ) (call : Call) : Prop :=
  (drivers.memory.perform call).1.withoutBytes = (drivers.kv.perform server call).1.withoutBytes ∧ drivers.ReadsLast call

/-- An artifact as the record of the other driver can hold it, named by no key of another kind. -/
structure Drivers.Plain (drivers : Drivers σ) (runId : JsString) (artifact : Artifact) : Prop where
  ofRun : artifact.runId = some runId
  createdAt : artifact.createdAt = none
  contentHash : artifact.contentHash = none
  contentType : artifact.contentType = none
  unchanged : ∀ stored ∈ drivers.memory.artifacts artifact.id, stored.metadata = artifact
  record : Fits (server.keys drivers.kv.redis) (artifactKey artifact.id) .string
  filed : Fits (server.keys drivers.kv.redis) (artifactRunKey runId) .set
  notIndex : artifactKey artifact.id ≠ artifactIndex
  notFile : artifactKey artifact.id ≠ artifactRunKey runId

instance Drivers.Plain.decidable (drivers : Drivers σ) (runId : JsString) (artifact : Artifact) :
    Decidable (drivers.Plain server runId artifact) :=
  decidable_of_iff (artifact.runId = some runId ∧ artifact.createdAt = none ∧ artifact.contentHash = none ∧
      artifact.contentType = none ∧ (∀ stored ∈ drivers.memory.artifacts artifact.id, stored.metadata = artifact) ∧
      Fits (server.keys drivers.kv.redis) (artifactKey artifact.id) .string ∧ Fits (server.keys drivers.kv.redis) (artifactRunKey runId) .set ∧
      artifactKey artifact.id ≠ artifactIndex ∧ artifactKey artifact.id ≠ artifactRunKey runId)
    ⟨fun ⟨a, b, c, d, e, f, g, h, i⟩ => ⟨a, b, c, d, e, f, g, h, i⟩,
      fun ⟨a, b, c, d, e, f, g, h, i⟩ => ⟨a, b, c, d, e, f, g, h, i⟩⟩

def Drivers.Safe (drivers : Drivers σ) : Call → Prop
  | .getRun id => Fits (server.keys drivers.kv.redis) (runKey id) .string
  | .putArtifact runId artifact _ => drivers.Plain server runId artifact
  | .getArtifact id => Fits (server.keys drivers.kv.redis) (artifactKey id) .string
  | .deleteRun id => runKey id ≠ runIndex ∧ Fits (server.keys drivers.kv.redis) (artifactRunKey id) .set

instance Drivers.Safe.decidable (drivers : Drivers σ) : ∀ call, Decidable (drivers.Safe server call)
  | .getRun id => inferInstanceAs (Decidable (Fits (server.keys drivers.kv.redis) (runKey id) .string))
  | .putArtifact runId artifact _ => Drivers.Plain.decidable server drivers runId artifact
  | .getArtifact id => inferInstanceAs (Decidable (Fits (server.keys drivers.kv.redis) (artifactKey id) .string))
  | .deleteRun id =>
    inferInstanceAs (Decidable (runKey id ≠ runIndex ∧ Fits (server.keys drivers.kv.redis) (artifactRunKey id) .set))

end Statement

section Keys

theorem runKey_injective : Function.Injective runKey := List.append_right_injective _

theorem artifactKey_injective : Function.Injective artifactKey := List.append_right_injective _

theorem artifactRunKey_injective : Function.Injective artifactRunKey := List.append_right_injective _

@[simp] theorem runKey_ne_artifactKey (id id' : JsString) : runKey id ≠ artifactKey id' :=
  fun h => absurd (List.cons.inj h).1 (by decide)

@[simp] theorem runKey_ne_artifactRunKey (id id' : JsString) : runKey id ≠ artifactRunKey id' :=
  fun h => absurd (List.cons.inj h).1 (by decide)

@[simp] theorem runIndex_ne_artifactKey (id : JsString) : runIndex ≠ artifactKey id :=
  fun h => absurd (List.cons.inj h).1 (by decide)

@[simp] theorem runIndex_ne_artifactRunKey (id : JsString) : runIndex ≠ artifactRunKey id :=
  fun h => absurd (List.cons.inj h).1 (by decide)

@[simp] theorem runKey_ne_artifactIndex (id : JsString) : runKey id ≠ artifactIndex :=
  fun h => absurd (List.cons.inj h).1 (by decide)

@[simp] theorem runIndex_ne_artifactIndex : runIndex ≠ artifactIndex := by decide

@[simp] theorem artifactRunKey_ne_artifactIndex (id : JsString) : artifactRunKey id ≠ artifactIndex := by
  intro h
  have hlength : id = [] := by
    have hfile := congrArg (List.take 10) h
    have htake : (artifactRunKey id).take 10 = ofString "artifact:r" := rfl
    rw [htake] at hfile
    exact absurd hfile (by decide)
  rw [hlength] at h
  exact absurd h (by decide)

end Keys

section Records

def recordOf (artifact : Artifact) : KVArtifactRecord where
  id := artifact.id
  name := artifact.name
  type := artifact.type.text
  size := artifact.size
  updatedAt := artifact.updatedAt
  runId := artifact.runId
  utKey := []
  utUrl := []

def recordText (artifact : Artifact) : List Char := stringify (.object (recordOf artifact).members)

theorem find_text (type : ArtifactType) : artifactTypes.find? (·.text = type.text) = some type := by
  cases type <;> rfl

theorem metadataOf_members {artifact : Artifact} (hcreated : artifact.createdAt = none)
    (hhash : artifact.contentHash = none) (hcontent : artifact.contentType = none) :
    metadataOf (.object (recordOf artifact).members) = some artifact := by
  have hid : (Json.object (recordOf artifact).members).get (ofString "id") = some (.string artifact.id) := rfl
  have hname : (Json.object (recordOf artifact).members).get (ofString "name") = some (.string artifact.name) := rfl
  have htype : (Json.object (recordOf artifact).members).get (ofString "type") =
      some (.string artifact.type.text) := rfl
  have hsize : (Json.object (recordOf artifact).members).get (ofString "size") = some (.number artifact.size) := rfl
  have hupdated : (Json.object (recordOf artifact).members).get (ofString "updatedAt") =
      some (.string artifact.updatedAt) := rfl
  have hrun : (Json.object (recordOf artifact).members).get (ofString "runId") =
      some ((artifact.runId.map Json.string).getD .null) := rfl
  have hread : asText ((artifact.runId.map Json.string).getD .null) = artifact.runId := by
    cases artifact.runId <;> rfl
  simp only [metadataOf, hid, hname, htype, hsize, hupdated, hrun, hread, Option.bind_some]
  simp only [asText, asNumber, Option.bind_eq_bind, Option.bind_some, find_text]
  refine congrArg some ?_
  cases artifact
  cases hcreated
  cases hhash
  cases hcontent
  rfl

theorem keys_members_nodup (record : KVArtifactRecord) : (record.members.map Prod.fst).Nodup := by
  change [ofString "id", ofString "name", ofString "type", ofString "size", ofString "updatedAt", ofString "runId",
    ofString "utKey", ofString "utUrl"].Nodup
  decide +kernel

theorem spread_members (record : KVArtifactRecord) : spread record.members record.members = record.members :=
  spread_of_subset (keys_members_nodup record) fun _ h => h

theorem parse_recordText (artifact : Artifact) :
    parse (recordText artifact) = some (.object (recordOf artifact).members) := parse_stringify _

theorem recordText_ne_nil (artifact : Artifact) : recordText artifact ≠ [] := by
  intro h
  have hparse := parse_recordText artifact
  rw [h] at hparse
  cases hparse

end Records

section Simulation

abbrev OverKeys := Drivers Keys

structure Mirrors (drivers : OverKeys) : Prop where
  runs : ∀ id, asString (drivers.kv.redis (runKey id)) =
    (drivers.memory.runs id).map fun run => stringify run.value
  index : ∀ id, id ∈ asSet (drivers.kv.redis runIndex) ↔ (drivers.memory.runs id).isSome
  indexKind : Fits drivers.kv.redis runIndex .set
  artifacts : ∀ id, asString (drivers.kv.redis (artifactKey id)) =
    (drivers.memory.artifacts id).map fun stored => recordText stored.metadata
  artifactIndexKind : Fits drivers.kv.redis artifactIndex .set
  filed : ∀ runId id, id ∈ asSet (drivers.kv.redis (artifactRunKey runId)) ↔
    ∃ stored ∈ drivers.memory.artifacts id, stored.metadata.runId = some runId
  readable : ∀ id, ∀ stored ∈ drivers.memory.artifacts id, stored.metadata.createdAt = none ∧
    stored.metadata.contentHash = none ∧ stored.metadata.contentType = none
  last : ∀ id, (drivers.memory.artifacts id).map StoredArtifact.metadata = lastPut id drivers.history

variable {drivers : OverKeys}

theorem stringify_ne_nil (value : Json) : stringify value ≠ [] := by
  intro h
  have hparse := parse_stringify value
  rw [h] at hparse
  cases hparse

theorem Mirrors.getRun (mirrors : Mirrors drivers) {id : JsString} (hfits : Fits drivers.kv.redis (runKey id) .string) :
    drivers.kv.getRun .keyspace id = .run (drivers.memory.getRun id) := by
  unfold KVRunDriver.getRun InMemoryRunDriver.getRun
  rw [Server.keyspace_get, get_of_fits hfits, mirrors.runs]
  cases drivers.memory.runs id with
  | none => rfl
  | some run =>
    simp only [Option.map_some, if_neg (stringify_ne_nil _), parse_stringify]

theorem Mirrors.getArtifact (mirrors : Mirrors drivers) {id : JsString}
    (hfits : Fits drivers.kv.redis (artifactKey id) .string) :
    drivers.kv.getArtifact .keyspace id = .stored ((drivers.memory.artifacts id).map fun stored => ⟨stored.metadata, []⟩) := by
  unfold KVRunDriver.getArtifact
  rw [Server.keyspace_get, get_of_fits hfits, mirrors.artifacts]
  cases hstored : drivers.memory.artifacts id with
  | none => rfl
  | some stored =>
    obtain ⟨hcreated, hhash, hcontent⟩ := mirrors.readable id stored hstored
    simp only [Option.map_some, if_neg (recordText_ne_nil _), parse_recordText, Option.bind_some,
      metadataOf_members hcreated hhash hcontent]

theorem Mirrors.read (mirrors : Mirrors drivers) {call : Call} (hlast : ∀ id, lastPut id (call :: drivers.history) =
    lastPut id drivers.history) : Mirrors ⟨drivers.memory, drivers.kv, call :: drivers.history⟩ where
  runs := mirrors.runs
  index := mirrors.index
  indexKind := mirrors.indexKind
  artifacts := mirrors.artifacts
  artifactIndexKind := mirrors.artifactIndexKind
  filed := mirrors.filed
  readable := mirrors.readable
  last := fun id => (mirrors.last id).trans (hlast id).symm

theorem Drivers.Plain.recordKind {runId : JsString} {artifact : Artifact} (plain : drivers.Plain .keyspace runId artifact) :
    Fits drivers.kv.redis (artifactKey artifact.id) .string := plain.record

theorem Drivers.Plain.fileKind {runId : JsString} {artifact : Artifact} (plain : drivers.Plain .keyspace runId artifact) :
    Fits drivers.kv.redis (artifactRunKey runId) .set := plain.filed

theorem Mirrors.existingMembers (mirrors : Mirrors drivers) {runId : JsString} {artifact : Artifact}
    (plain : drivers.Plain .keyspace runId artifact) :
    ∃ existing, KVRunDriver.existingMembers .keyspace drivers.kv.redis artifact.id = some existing ∧
      spread (recordOf artifact).members existing = (recordOf artifact).members := by
  unfold KVRunDriver.existingMembers
  rw [Server.keyspace_get, get_of_fits plain.recordKind, mirrors.artifacts]
  cases hstored : drivers.memory.artifacts artifact.id with
  | none => exact ⟨[], rfl, rfl⟩
  | some stored =>
    refine ⟨(recordOf artifact).members, ?_, spread_members _⟩
    simp only [Option.map_some, plain.unchanged stored hstored, if_neg (recordText_ne_nil _), parse_recordText]

def putKeys (redis : Keys) (runId : JsString) (artifact : Artifact) : Keys :=
  storeSet (storeSet (set redis (artifactKey artifact.id) (recordText artifact)) artifactIndex
    (insert artifact.id (asSet (redis artifactIndex)))) (artifactRunKey runId)
    (insert artifact.id (asSet (redis (artifactRunKey runId))))

theorem Mirrors.putArtifact (mirrors : Mirrors drivers) {runId : JsString} {artifact : Artifact}
    (plain : drivers.Plain .keyspace runId artifact) :
    drivers.kv.putArtifact .keyspace runId artifact = (.metadata artifact, ⟨putKeys drivers.kv.redis runId artifact⟩) := by
  obtain ⟨existing, hexisting, hspread⟩ := mirrors.existingMembers plain
  have hrecord : recordOf artifact = {
      id := artifact.id, name := artifact.name, type := artifact.type.text, size := artifact.size
      updatedAt := artifact.updatedAt, runId := some runId, utKey := [], utUrl := [] } := by
    rw [recordOf, plain.ofRun]
  have hindexed : sadd (set drivers.kv.redis (artifactKey artifact.id) (recordText artifact)) artifactIndex
      artifact.id = some (storeSet (set drivers.kv.redis (artifactKey artifact.id) (recordText artifact))
        artifactIndex (insert artifact.id (asSet (drivers.kv.redis artifactIndex)))) := by
    rw [sadd_of_fits (mirrors.artifactIndexKind.set plain.notIndex.symm _), asSet_set, if_neg plain.notIndex.symm]
  have hfiledKind := (plain.fileKind.set plain.notFile.symm (recordText artifact)).storeSet artifactIndex
    (insert artifact.id (asSet (drivers.kv.redis artifactIndex)))
  unfold KVRunDriver.putArtifact
  have htext : stringify (.object (recordOf artifact).members) = recordText artifact := rfl
  simp only [hexisting, ← hrecord, hspread, htext, Server.keyspace_set, Server.keyspace_sadd, hindexed]
  rw [sadd_of_fits hfiledKind, asSet_storeSet, if_neg (artifactRunKey_ne_artifactIndex runId), asSet_set,
    if_neg plain.notFile.symm]
  rfl

theorem Mirrors.afterPut (mirrors : Mirrors drivers) {runId : JsString} {artifact : Artifact} (bytes : List UInt8)
    (plain : drivers.Plain .keyspace runId artifact) : Mirrors (drivers.step .keyspace (.putArtifact runId artifact bytes)) := by
  have hmetadata : { artifact with runId := some runId } = artifact := by
    rw [← plain.ofRun]
  have hkv : (drivers.step .keyspace (.putArtifact runId artifact bytes)).kv = ⟨putKeys drivers.kv.redis runId artifact⟩ :=
    congrArg Prod.snd (mirrors.putArtifact plain)
  have hmemory : ∀ id, (drivers.step .keyspace (.putArtifact runId artifact bytes)).memory.artifacts id =
      if id = artifact.id then some ⟨artifact, bytes⟩ else drivers.memory.artifacts id := by
    intro id
    rw [← Function.update_apply, ← hmetadata]
    rfl
  have hstring : ∀ k, asString (putKeys drivers.kv.redis runId artifact k) =
      if k = artifactKey artifact.id then some (recordText artifact) else asString (drivers.kv.redis k) := by
    intro k
    have hindexKind := mirrors.artifactIndexKind.set plain.notIndex.symm (recordText artifact)
    have hfiledKind := (plain.fileKind.set plain.notFile.symm (recordText artifact)).storeSet artifactIndex
      (insert artifact.id (asSet (drivers.kv.redis artifactIndex)))
    rw [putKeys, asString_storeSet_of_fits hfiledKind, asString_storeSet_of_fits hindexKind, asString_set]
  have hset : ∀ k, k ≠ artifactIndex → asSet (putKeys drivers.kv.redis runId artifact k) =
      if k = artifactRunKey runId then insert artifact.id (asSet (drivers.kv.redis k)) else asSet (drivers.kv.redis k) := by
    intro k hk
    rw [putKeys, asSet_storeSet, asSet_storeSet, asSet_set, if_neg hk]
    by_cases hrun : k = artifactRunKey runId
    · rw [if_pos hrun, if_pos hrun, hrun]
    · rw [if_neg hrun, if_neg hrun]
      split_ifs with hrecord
      · rw [hrecord, asSet_of_fits plain.recordKind (by decide)]
      · rfl
  constructor
  · intro id
    rw [hkv, hstring, if_neg (runKey_ne_artifactKey _ _)]
    exact mirrors.runs id
  · intro id
    rw [hkv, hset _ runIndex_ne_artifactIndex, if_neg (runIndex_ne_artifactRunKey _)]
    exact mirrors.index id
  · rw [hkv]
    exact ((mirrors.indexKind.set (runIndex_ne_artifactKey _) _).storeSet _ _).storeSet _ _
  · intro id
    rw [hkv, hstring, hmemory]
    simp only [artifactKey_injective.eq_iff]
    split_ifs
    · rfl
    · exact mirrors.artifacts id
  · rw [hkv]
    exact ((mirrors.artifactIndexKind.set plain.notIndex.symm _).storeSet _ _).storeSet _ _
  · intro run id
    rw [hkv, hset _ (artifactRunKey_ne_artifactIndex run), hmemory]
    simp only [artifactRunKey_injective.eq_iff]
    have hfiled := mirrors.filed run id
    by_cases hid : id = artifact.id
    · subst hid
      have hfresh : run ≠ runId → artifact.id ∉ asSet (drivers.kv.redis (artifactRunKey run)) := by
        intro hrun hmem
        obtain ⟨stored, hstored, hof⟩ := hfiled.mp hmem
        rw [plain.unchanged stored hstored, plain.ofRun, Option.some.injEq] at hof
        exact hrun hof.symm
      by_cases hrun : run = runId
      · simp [hrun, plain.ofRun]
      · simp [hrun, hfresh hrun, plain.ofRun, Ne.symm hrun]
    · rw [if_neg hid, ← hfiled]
      split_ifs
      · rw [Finset.mem_insert, or_iff_right hid]
      · rfl
  · intro id stored hstored
    rw [hmemory] at hstored
    split_ifs at hstored with hid
    · obtain rfl := Option.some.inj hstored
      exact ⟨plain.createdAt, plain.contentHash, plain.contentType⟩
    · exact mirrors.readable id stored hstored
  · intro id
    rw [hmemory, Drivers.step, lastPut, hmetadata]
    by_cases hid : id = artifact.id
    · rw [if_pos hid, if_pos hid.symm]
      rfl
    · rw [if_neg hid, if_neg (Ne.symm hid)]
      exact mirrors.last id

theorem dropArtifacts_eq {redis : Keys} (hindex : Fits redis artifactIndex .set) (ids : List JsString) :
    ∃ dropped, KVRunDriver.dropArtifacts .keyspace redis ids = (true, dropped) ∧
      (∀ k, asString (dropped k) = if k ∈ ids.map artifactKey then none else asString (redis k)) ∧
      (∀ k, k ≠ artifactIndex → asSet (dropped k) = if k ∈ ids.map artifactKey then ∅ else asSet (redis k)) ∧
      ∀ k, Fits redis k .set → Fits dropped k .set := by
  induction ids generalizing redis with
  | nil => exact ⟨redis, rfl, fun k => by simp, fun k _ => by simp, fun _ h => h⟩
  | cons id ids ih =>
    have hkind : Fits (del redis (artifactKey id)).2 artifactIndex .set := hindex.del _
    obtain ⟨dropped, hdropped, hstring, hset, hfits⟩ := ih (hkind.storeSet artifactIndex
      ((asSet ((del redis (artifactKey id)).2 artifactIndex)).erase id))
    refine ⟨dropped, ?_, ?_, ?_, ?_⟩
    · have hremoved := srem_of_fits hkind id
      rw [KVRunDriver.dropArtifacts]
      simp only [Server.keyspace_del, Server.keyspace_srem, hremoved]
      exact hdropped
    · intro k
      rw [hstring, asString_storeSet_of_fits hkind, asString_del]
      by_cases hk : k = artifactKey id <;> simp [hk]
    · intro k hk
      rw [hset k hk, asSet_storeSet, if_neg hk, asSet_del]
      by_cases hkey : k = artifactKey id <;> simp [hkey]
    · intro k hk
      exact hfits k ((hk.del _).storeSet _ _)

theorem Mirrors.deleteRun (mirrors : Mirrors drivers) {id : JsString} (hnotIndex : runKey id ≠ runIndex)
    (hfiled : Fits drivers.kv.redis (artifactRunKey id) .set) :
    ∃ kept : Keys, drivers.kv.deleteRun .keyspace id = (.deleted (drivers.memory.runs id).isSome, ⟨kept⟩) ∧
      (∀ k, asString (kept k) = if k = runKey id ∨ ∃ artifactId ∈ asSet (drivers.kv.redis (artifactRunKey id)),
        artifactKey artifactId = k then none else asString (drivers.kv.redis k)) ∧
      (∀ run, asSet (kept (artifactRunKey run)) =
        if run = id then ∅ else asSet (drivers.kv.redis (artifactRunKey run))) ∧
      asSet (kept runIndex) = (asSet (drivers.kv.redis runIndex)).erase id ∧
      Fits kept runIndex .set ∧ Fits kept artifactIndex .set := by
  have herased := mirrors.indexKind.storeSet runIndex ((asSet (drivers.kv.redis runIndex)).erase id)
  have hindexKind := (mirrors.artifactIndexKind.storeSet runIndex
    ((asSet (drivers.kv.redis runIndex)).erase id)).del (runKey id)
  have hfiledKind := (hfiled.storeSet runIndex ((asSet (drivers.kv.redis runIndex)).erase id)).del (runKey id)
  have hmembers : smembers (del (storeSet drivers.kv.redis runIndex ((asSet (drivers.kv.redis runIndex)).erase id))
      (runKey id)).2 (artifactRunKey id) = some (asSet (drivers.kv.redis (artifactRunKey id))) := by
    rw [smembers_of_fits hfiledKind, asSet_del, if_neg (runKey_ne_artifactRunKey _ _).symm, asSet_storeSet,
      if_neg (runIndex_ne_artifactRunKey _).symm]
  obtain ⟨dropped, hdropped, hstring, hset, hfits⟩ := dropArtifacts_eq hindexKind
    ((asSet (drivers.kv.redis (artifactRunKey id))).sort (· ≤ ·))
  have hlisted : ∀ k, k ∈ ((asSet (drivers.kv.redis (artifactRunKey id))).sort (· ≤ ·)).map artifactKey ↔
      ∃ artifactId ∈ asSet (drivers.kv.redis (artifactRunKey id)), artifactKey artifactId = k := by
    intro k
    simp only [List.mem_map, Finset.mem_sort]
  have hdroppedKind := hfits _ hfiledKind
  refine ⟨(del dropped (artifactRunKey id)).2, ?_, ?_, ?_, ?_, ?_, ?_⟩
  · unfold KVRunDriver.deleteRun
    rw [Server.keyspace_srem, srem_of_fits mirrors.indexKind]
    dsimp only
    rw [Server.keyspace_del, Server.keyspace_smembers, hmembers]
    dsimp only
    rw [hdropped]
    have hexisted : decide (id ∈ asSet (drivers.kv.redis runIndex)) = (drivers.memory.runs id).isSome := by
      rw [Bool.eq_iff_iff, decide_eq_true_iff]
      exact mirrors.index id
    rw [hexisted]
  · intro k
    have hfile : asString ((del dropped (artifactRunKey id)).2 k) = asString (dropped k) := by
      rw [asString_del]
      split_ifs with hk
      · rw [hk, asString_of_fits hdroppedKind (by decide)]
      · rfl
    rw [hfile, hstring, asString_del, asString_storeSet_of_fits mirrors.indexKind]
    simp only [hlisted]
    by_cases hk : k = runKey id <;> simp [hk]
  · intro run
    rw [asSet_del, hset _ (artifactRunKey_ne_artifactIndex run), asSet_del,
      if_neg (runKey_ne_artifactRunKey _ _).symm, asSet_storeSet, if_neg (runIndex_ne_artifactRunKey _).symm]
    simp only [artifactRunKey_injective.eq_iff, hlisted]
    split_ifs with hrun hartifact
    · rfl
    · obtain ⟨artifactId, hmem, hkey⟩ := hartifact
      obtain ⟨stored, hstored, -⟩ := (mirrors.filed id artifactId).mp hmem
      have hrecord := mirrors.artifacts artifactId
      rw [hstored, hkey] at hrecord
      exact (asSet_of_asString hrecord).symm
    · rfl
  · rw [asSet_del, if_neg (runIndex_ne_artifactRunKey _), hset _ runIndex_ne_artifactIndex, asSet_del,
      if_neg hnotIndex.symm, asSet_storeSet, if_pos rfl]
    simp [hlisted, (runIndex_ne_artifactKey _).symm]
  · exact (hfits _ (herased.del _)).del _
  · exact (hfits _ hindexKind).del _

theorem Mirrors.afterDelete (mirrors : Mirrors drivers) {id : JsString} (hnotIndex : runKey id ≠ runIndex)
    (hfiled : Fits drivers.kv.redis (artifactRunKey id) .set) : Mirrors (drivers.step .keyspace (.deleteRun id)) := by
  obtain ⟨kept, hdelete, hstring, hset, hruns, hrunKind, hartifactKind⟩ := mirrors.deleteRun hnotIndex hfiled
  have hkv : (drivers.step .keyspace (.deleteRun id)).kv = ⟨kept⟩ := congrArg Prod.snd hdelete
  have hmemoryRuns : ∀ run, (drivers.step .keyspace (.deleteRun id)).memory.runs run =
      if run = id then none else drivers.memory.runs run := fun run => Function.update_apply ..
  have hmemory : ∀ artifactId, (drivers.step .keyspace (.deleteRun id)).memory.artifacts artifactId =
      (drivers.memory.artifacts artifactId).filter fun a => a.metadata.runId ≠ some id := fun _ => rfl
  constructor
  · intro run
    rw [hkv, hstring, hmemoryRuns]
    simp only [runKey_injective.eq_iff, (runKey_ne_artifactKey _ _).symm, and_false, exists_false, or_false]
    split_ifs
    · rfl
    · exact mirrors.runs run
  · intro run
    rw [hkv, hruns, hmemoryRuns, Finset.mem_erase, mirrors.index]
    by_cases hrun : run = id <;> simp [hrun]
  · exact hkv ▸ hrunKind
  · intro artifactId
    rw [hkv, hstring, hmemory]
    simp only [(runKey_ne_artifactKey _ _).symm, false_or, artifactKey_injective.eq_iff, exists_eq_right,
      mirrors.filed]
    rw [mirrors.artifacts]
    cases drivers.memory.artifacts artifactId with
    | none => simp
    | some stored => by_cases hrun : stored.metadata.runId = some id <;> simp [hrun, Option.filter]
  · exact hkv ▸ hartifactKind
  · intro run artifactId
    rw [hkv, hset, hmemory]
    have hbefore := mirrors.filed run artifactId
    by_cases hrun : run = id
    · subst hrun
      simp
    · rw [if_neg hrun, hbefore]
      constructor
      · rintro ⟨stored, hstored, hof⟩
        refine ⟨stored, ?_, hof⟩
        rw [Option.mem_def, Option.filter_eq_some_iff]
        exact ⟨hstored, by simpa [hof] using hrun⟩
      · rintro ⟨stored, hstored, hof⟩
        exact ⟨stored, (Option.filter_eq_some_iff.mp hstored).1, hof⟩
  · intro artifactId stored hstored
    rw [hmemory] at hstored
    exact mirrors.readable artifactId stored (Option.filter_eq_some_iff.mp hstored).1
  · intro artifactId
    rw [hmemory, Drivers.step, lastPut, ← mirrors.last]
    cases drivers.memory.artifacts artifactId with
    | none => rfl
    | some stored => by_cases hrun : stored.metadata.runId = some id <;> simp [hrun, Option.filter]

theorem Mirrors.perform (mirrors : Mirrors drivers) {call : Call} (hsafe : drivers.Safe .keyspace call) :
    drivers.Agree .keyspace call ∧ Mirrors (drivers.step .keyspace call) := by
  cases call with
  | getRun id =>
    refine ⟨⟨?_, trivial⟩, mirrors.read fun _ => rfl⟩
    exact (congrArg Reply.withoutBytes (mirrors.getRun hsafe)).symm
  | putArtifact runId artifact bytes =>
    refine ⟨⟨?_, trivial⟩, mirrors.afterPut bytes hsafe⟩
    have hreply : (drivers.kv.perform .keyspace (.putArtifact runId artifact bytes)).1 = .metadata artifact :=
      congrArg Prod.fst (mirrors.putArtifact hsafe)
    have hmetadata : { artifact with runId := some runId } = artifact := by
      rw [← hsafe.ofRun]
    rw [hreply, ← hmetadata]
    rfl
  | getArtifact id =>
    have hread : (drivers.memory.perform (.getArtifact id)).1.withoutBytes =
        .stored ((drivers.memory.artifacts id).map fun stored => ⟨stored.metadata, []⟩) := rfl
    refine ⟨⟨?_, ?_⟩, mirrors.read fun _ => rfl⟩
    · have hreply : (drivers.kv.perform .keyspace (.getArtifact id)).1 =
          .stored ((drivers.memory.artifacts id).map fun stored => ⟨stored.metadata, []⟩) :=
        mirrors.getArtifact hsafe
      rw [hread, hreply]
      cases drivers.memory.artifacts id <;> rfl
    · change _ = _
      rw [hread, ← mirrors.last]
      cases drivers.memory.artifacts id <;> rfl
  | deleteRun id =>
    refine ⟨⟨?_, trivial⟩, mirrors.afterDelete hsafe.1 hsafe.2⟩
    obtain ⟨kept, hdelete, -⟩ := mirrors.deleteRun hsafe.1 hsafe.2
    exact (congrArg (fun result => result.1.withoutBytes) hdelete).symm

theorem Mirrors.putRun {memory : InMemoryRunDriver} {redis : Keys} (mirrors : Mirrors ⟨memory, ⟨redis⟩, []⟩)
    {run : FuzzingRun} (hnotIndex : runKey run.id ≠ runIndex) :
    Mirrors ⟨{ memory with runs := Function.update memory.runs run.id (some run) },
      ⟨(KVRunDriver.putRun .keyspace redis run).2⟩, []⟩ := by
  have hkind := mirrors.indexKind.set hnotIndex.symm (stringify run.value)
  have hput : (KVRunDriver.putRun .keyspace redis run).2 = storeSet (set redis (runKey run.id) (stringify run.value)) runIndex
      (insert run.id (asSet (redis runIndex))) := by
    rw [KVRunDriver.putRun, Server.keyspace_set, Server.keyspace_sadd, sadd_of_fits hkind, asSet_set, if_neg hnotIndex.symm]
  have hstring : ∀ k, asString ((KVRunDriver.putRun .keyspace redis run).2 k) =
      if k = runKey run.id then some (stringify run.value) else asString (redis k) := by
    intro k
    rw [hput, asString_storeSet_of_fits hkind, asString_set]
  constructor
  · intro id
    refine (hstring _).trans ?_
    change _ = (Function.update memory.runs run.id (some run) id).map _
    rw [Function.update_apply]
    simp only [runKey_injective.eq_iff]
    split_ifs
    · rfl
    · exact mirrors.runs id
  · intro id
    change id ∈ asSet ((KVRunDriver.putRun .keyspace redis run).2 runIndex) ↔
      (Function.update memory.runs run.id (some run) id).isSome
    rw [hput, asSet_storeSet, if_pos rfl, Finset.mem_insert, Function.update_apply]
    by_cases hid : id = run.id
    · simp [hid]
    · rw [if_neg hid, or_iff_right hid]
      exact mirrors.index id
  · exact hput ▸ hkind.storeSet _ _
  · intro id
    refine (hstring _).trans ?_
    rw [if_neg (runKey_ne_artifactKey _ _).symm]
    exact mirrors.artifacts id
  · exact hput ▸ (mirrors.artifactIndexKind.set (runKey_ne_artifactIndex _).symm _).storeSet _ _
  · intro runId id
    refine Iff.trans ?_ (mirrors.filed runId id)
    change id ∈ asSet ((KVRunDriver.putRun .keyspace redis run).2 _) ↔ _
    rw [hput, asSet_storeSet, if_neg (runIndex_ne_artifactRunKey _).symm, asSet_set,
      if_neg (runKey_ne_artifactRunKey _ _).symm]
  · exact mirrors.readable
  · exact mirrors.last

theorem Mirrors.create {runs : List FuzzingRun} (h : ∀ run ∈ runs, runKey run.id ≠ runIndex) :
    Mirrors (.create .keyspace runs) := by
  induction runs using List.reverseRecOn with
  | nil =>
    exact ⟨fun _ => rfl, fun _ => by simp [Drivers.create, InMemoryRunDriver.create, KVRunDriver.create, asSet], rfl,
      fun _ => rfl, rfl, fun _ _ => by simp [Drivers.create, InMemoryRunDriver.create, KVRunDriver.create, asSet],
      fun _ _ h => by simp [Drivers.create, InMemoryRunDriver.create] at h, fun _ => rfl⟩
  | append_singleton runs run ih =>
    have hbefore := ih fun r hr => h r (List.mem_append_left _ hr)
    have hlast := hbefore.putRun (h run (List.mem_append_right _ (List.mem_singleton_self run)))
    simpa only [Drivers.create, InMemoryRunDriver.create, KVRunDriver.create, List.foldl_append, List.foldl_cons,
      List.foldl_nil] using hlast

variable {σ : Type} (server : Server σ JsString (List Char) JsString)

def Drivers.onKeys (drivers : Drivers σ) : OverKeys := ⟨drivers.memory, drivers.kv.onKeys server, drivers.history⟩

theorem step_onKeys (drivers : Drivers σ) (call : Call) :
    (drivers.onKeys server).step .keyspace call = (drivers.step server call).onKeys server := by
  rw [Drivers.step, Drivers.onKeys, ← KVRunDriver.perform_onKeys]
  rfl

theorem agree_onKeys {drivers : Drivers σ} {call : Call} (h : (drivers.onKeys server).Agree .keyspace call) :
    drivers.Agree server call := by
  obtain ⟨hreply, hlast⟩ := h
  rw [Drivers.onKeys, ← KVRunDriver.perform_onKeys] at hreply
  exact ⟨hreply, hlast⟩

theorem safe_onKeys {drivers : Drivers σ} {call : Call} (h : drivers.Safe server call) :
    (drivers.onKeys server).Safe .keyspace call := by
  cases call with
  | putArtifact runId artifact bytes =>
    exact ⟨h.ofRun, h.createdAt, h.contentHash, h.contentType, h.unchanged, h.record, h.filed, h.notIndex, h.notFile⟩
  | _ => exact h

theorem run_drivers_agree {runs : List FuzzingRun} {calls : List Call} (initial : ∀ run ∈ runs, runKey run.id ≠ runIndex)
    (safe : EachStep (Drivers.step server) (Drivers.Safe server) (.create server runs) calls) :
    EachStep (Drivers.step server) (Drivers.Agree server) (.create server runs) calls := by
  apply safe.imp (I := fun drivers => Mirrors (drivers.onKeys server))
  · intro drivers call mirrors h
    rw [← step_onKeys]
    exact (mirrors.perform (safe_onKeys server h)).2
  · intro drivers call mirrors h
    exact agree_onKeys server (mirrors.perform (safe_onKeys server h)).1
  · rw [Drivers.onKeys, Drivers.create, KVRunDriver.create_onKeys]
    exact Mirrors.create initial

end Simulation

section Sample

def nightlyRun : FuzzingRun := ⟨ofString "r1", [(ofString "status", .string (ofString "running"))]⟩

def crashLog (name : String) : Artifact where
  id := ofString "a1"
  name := ofString name
  type := .log
  size := .ofNat 1
  updatedAt := ofString "2026-01-01T00:00:00.000Z"
  runId := some (ofString "r1")

def putLog (name : String) : Call := .putArtifact (ofString "r1") (crashLog name) [1]

def readLog : Call := .getArtifact (ofString "a1")

def Reply.name : Reply → Option JsString
  | .stored (some found) => some found.metadata.name
  | _ => none

theorem single_put_agrees :
    EachStep (Drivers.step .keyspace) (Drivers.Agree .keyspace) (.create .keyspace [nightlyRun])
      [putLog "crash.log", readLog, .getRun (ofString "r1")] :=
  run_drivers_agree .keyspace (by simp only [List.forall_mem_singleton]; decide) (by decide +kernel)

theorem second_put_disagrees :
    ¬ EachStep (Drivers.step .keyspace) (Drivers.Agree .keyspace) (.create .keyspace [nightlyRun]) [putLog "a.log", putLog "b.log", readLog] := by
  rintro ⟨-, -, ⟨hreplies, -⟩, -⟩
  exact absurd (congrArg Reply.name hreplies) (by decide +kernel)

end Sample

end CrashLab.Runs
