import CrashLab.ArtifactStorage
import CrashLab.Histories

namespace CrashLab.StoreAgreement

open ArtifactStorage BundlePersist Histories Sorting Std

variable {Environment Envelope : Type}

inductive Operation (Environment Envelope : Type) where
  | store (artifactId : String) (bundle : CaseBundle Environment Envelope)
  | retrieve (artifactId : String)
  | delete (artifactId : String)
  | exist (artifactId : String)
  | list (readDir : Enumeration (String × FileEntry)) (iter : Enumeration (String × MemoryEntry))

structure Call (Environment Envelope : Type) where
  now : ℕ
  operation : Operation Environment Envelope

inductive Answer (Environment Envelope : Type) where
  | stored (result : Except StorageError ArtifactMetadata)
  | retrieved (result : Except StorageError (CaseBundle Environment Envelope))
  | deleted (result : Except StorageError Unit)
  | existing (result : Bool)
  | listed (result : Except StorageError (List ArtifactMetadata))

variable (host : Host Environment Envelope)

def localCall (dir : Directory) (call : Call Environment Envelope) :
    (ℕ → Option (Answer Environment Envelope)) × Directory :=
  match call.operation with
  | .store artifactId bundle =>
    match LocalArtifactStore.storeArtifact host dir call.now artifactId bundle with
    | none => (fun _ => none, dir)
    | some (result, dir) => (fun _ => some (.stored result), dir)
  | .retrieve artifactId =>
    (fun fuel => (LocalArtifactStore.retrieveArtifact host artifactId fuel).map .retrieved, dir)
  | .delete artifactId =>
    let (result, dir) := LocalArtifactStore.deleteArtifact dir artifactId
    (fun _ => some (.deleted result), dir)
  | .exist artifactId =>
    let (result, dir) := LocalArtifactStore.artifactExists dir call.now artifactId
    (fun _ => some (.existing result), dir)
  | .list readDir _ =>
    let (result, dir) := LocalArtifactStore.listArtifacts host dir call.now readDir
    (fun _ => some (.listed result), dir)

def memoryCall (entries : Entries) (call : Call Environment Envelope) :
    Answer Environment Envelope × Entries :=
  match call.operation with
  | .store artifactId bundle =>
    let (result, entries) := MemoryArtifactStore.storeArtifact host entries call.now artifactId bundle
    (.stored result, entries)
  | .retrieve artifactId =>
    let (result, entries) := MemoryArtifactStore.retrieveArtifact host entries call.now artifactId
    (.retrieved result, entries)
  | .delete artifactId =>
    let (result, entries) := MemoryArtifactStore.deleteArtifact entries artifactId
    (.deleted result, entries)
  | .exist artifactId =>
    let (result, entries) := MemoryArtifactStore.artifactExists entries call.now artifactId
    (.existing result, entries)
  | .list _ iter =>
    let (result, entries) := MemoryArtifactStore.listArtifacts host entries call.now iter
    (.listed result, entries)

structure Stores where
  dir : Directory
  entries : Entries

def step (stores : Stores) (call : Call Environment Envelope) : Stores :=
  ⟨(localCall host stores.dir call).2, (memoryCall host stores.entries call).2⟩

def Agree (stores : Stores) (call : Call Environment Envelope) : Prop :=
  ∃ fuel, (localCall host stores.dir call).1 fuel = some (memoryCall host stores.entries call).1

def Storable (artifactId : String) (bundle : CaseBundle Environment Envelope) : Prop :=
  (∃ e, saveCaseBundleJson host.serde bundle = .error e ∧
      saveSanitizedCaseBundleJson host.serde bundle = some (.error e)) ∨
    ∃ raw sanitized, saveCaseBundleJson host.serde bundle = .ok raw ∧
      saveSanitizedCaseBundleJson host.serde bundle = some (.ok sanitized) ∧
      raw.length = sanitized.length ∧
      host.accepts (LocalArtifactStore.artifactPath artifactId) ∧
      host.accepts (LocalArtifactStore.artifactPath artifactId ++ ".tmp")

def localIds (dir : Directory) (readDir : Enumeration (String × FileEntry)) : List String :=
  (readDir.order dir.toList).filterMap fun entry => LocalArtifactStore.jsonStem entry.1

def memoryIds (entries : Entries) (iter : Enumeration (String × MemoryEntry)) : List String :=
  (iter.order entries.toList).map Prod.fst

def storedAt (entries : Entries) (artifactId : String) : Option String :=
  (entries[artifactId]?).map fun entry => host.toRfc3339 entry.storedAtEpoch

def TiesAlike (stores : Stores) (readDir : Enumeration (String × FileEntry))
    (iter : Enumeration (String × MemoryEntry)) : Prop :=
  ∀ time, (localIds stores.dir readDir).filter (storedAt host stores.entries · = some time) =
    (memoryIds stores.entries iter).filter (storedAt host stores.entries · = some time)

def Meets (stores : Stores) (call : Call Environment Envelope) : Prop :=
  match call.operation with
  | .store artifactId bundle => validateArtifactId artifactId = .ok () → Storable host artifactId bundle
  | .retrieve _ => False
  | .delete _ => True
  | .exist _ => True
  | .list readDir iter => TiesAlike host stores readDir iter

section Names

open LocalArtifactStore

variable {a b name : String}

theorem artifactPath_injective : Function.Injective artifactPath := by
  intro a b h
  have hlist := congrArg String.toList h
  simp only [artifactPath, String.toList_append, List.append_cancel_right_eq] at hlist
  exact String.toList_inj.mp hlist

theorem artifactPath_ne_ttlPath : artifactPath a ≠ ttlPath b := by
  intro h
  have hlast := congrArg (fun path => path.toList.getLast?) h
  simp [artifactPath, ttlPath] at hlast

theorem tmpPath_ne_artifactPath : a ++ ".tmp" ≠ artifactPath b := by
  intro h
  have hlast := congrArg (fun path => path.toList.getLast?) h
  simp [artifactPath] at hlast

theorem tmpPath_ne_ttlPath : a ++ ".tmp" ≠ ttlPath b := by
  intro h
  have hlast := congrArg (fun path => path.toList.getLast?) h
  simp [ttlPath] at hlast

theorem eq_artifactPath_of_jsonStem (h : jsonStem name = some a) : name = artifactPath a := by
  simp only [jsonStem] at h
  split_ifs at h with hstem
  rw [Option.some_inj] at h
  have hname := congrArg String.ofList hstem.2
  rwa [String.ofList_toList, String.ofList_append, h, String.ofList_toList] at hname

end Names

section Stores

open LocalArtifactStore MemoryArtifactStore

structure Mirror (stores : Stores) : Prop where
  alike : ∀ id, (stores.dir[artifactPath id]?).map (fun file => (file.bytes.length, file.modified)) =
    (stores.entries[id]?).map fun entry => (entry.bytes.length, entry.storedAtEpoch)
  unexpiring : ∀ (id : String) (entry : MemoryEntry), stores.entries[id]? = some entry → entry.expiresAtEpoch = none
  noSidecar : ∀ id, stores.dir[ttlPath id]? = none

theorem mirror_empty : Mirror ⟨∅, ∅⟩ := by
  refine ⟨fun id => ?_, fun id entry h => ?_, fun id => ?_⟩
  · rw [ExtTreeMap.getElem?_empty, ExtTreeMap.getElem?_empty]
    rfl
  · rw [ExtTreeMap.getElem?_empty] at h
    cases h
  · rw [ExtTreeMap.getElem?_empty]

variable {stores : Stores} {id : String} {now : ℕ}

theorem Mirror.purgeIfExpired_eq (mirror : Mirror stores) :
    purgeIfExpired stores.dir now id = (false, stores.dir) := by
  simp only [purgeIfExpired, ttlExpiryEpoch, mirror.noSidecar, Option.bind_eq_bind, Option.bind_none]

theorem Mirror.liveEntry_eq (mirror : Mirror stores) :
    liveEntry stores.entries now id = (stores.entries[id]?, stores.entries) := by
  cases h : stores.entries[id]? with
  | none => simp only [liveEntry, h]
  | some entry =>
    simp only [liveEntry, h, isExpired, mirror.unexpiring id entry h, Option.any_none, Bool.false_eq_true,
      ↓reduceIte]

theorem Mirror.contains_eq (mirror : Mirror stores) :
    stores.dir.contains (artifactPath id) = (stores.entries[id]?).isSome := by
  have h := congrArg Option.isSome (mirror.alike id)
  rwa [Option.isSome_map, Option.isSome_map, ← ExtTreeMap.contains_eq_isSome_getElem?] at h

theorem Mirror.unexpired_eq (mirror : Mirror stores) :
    stores.entries.filter (fun _ entry => !isExpired now entry) = stores.entries := by
  apply ExtTreeMap.filter_eq_self_iff.mpr
  intro id h
  have hexpires := mirror.unexpiring id stores.entries[id] (ExtTreeMap.getElem?_eq_some_getElem h)
  simp only [isExpired, hexpires, Option.any_none, Bool.not_false]

theorem serializeBounded_length_le {json : Except String (List UInt8)} {bytes : List UInt8}
    (h : serializeBounded json = .ok bytes) : bytes.length ≤ maxBundleJsonBytes := by
  cases json with
  | error e => cases h
  | ok json =>
    change (if maxBundleJsonBytes < json.length then throw (BundlePersistError.sizeLimit maxBundleJsonBytes) else pure json) =
      Except.ok bytes at h
    split_ifs at h with hlength
    cases h
    exact Nat.le_of_not_lt hlength

theorem sanitized_length_le {bundle : CaseBundle Environment Envelope} {bytes : List UInt8}
    (h : saveSanitizedCaseBundleJson host.serde bundle = some (.ok bytes)) :
    bytes.length ≤ maxBundleJsonBytes := by
  obtain ⟨doc, -, hjson⟩ := Option.map_eq_some_iff.mp h
  exact serializeBounded_length_le hjson

def written (dir : Directory) (path : String) (bytes : List UInt8) (now : ℕ) : Directory :=
  (dir.erase (path ++ ".tmp")).insert path ⟨bytes, now⟩

theorem localStore_of_error {bundle : CaseBundle Environment Envelope} (dir : Directory)
    {e : BundlePersistError} (valid : validateArtifactId id = .ok ())
    (h : saveSanitizedCaseBundleJson host.serde bundle = some (.error e)) :
    LocalArtifactStore.storeArtifact host dir now id bundle = some (.error (.persistence e), dir) := by
  simp only [LocalArtifactStore.storeArtifact, valid, h, Option.map_some]

theorem localStore_of_ok {bundle : CaseBundle Environment Envelope} (dir : Directory)
    {sanitized : List UInt8} (valid : validateArtifactId id = .ok ())
    (h : saveSanitizedCaseBundleJson host.serde bundle = some (.ok sanitized))
    (accepts : host.accepts (artifactPath id) = true) (acceptsTmp : host.accepts (artifactPath id ++ ".tmp") = true) :
    LocalArtifactStore.storeArtifact host dir now id bundle =
      some (.ok ⟨id, id ++ ".json", sanitized.length, host.toRfc3339 now⟩,
        written dir (artifactPath id) sanitized now) := by
  have hlength := Nat.not_lt.mpr (sanitized_length_le host h)
  simp only [LocalArtifactStore.storeArtifact, valid, h, Option.map_some, maxArtifactJsonBytes, hlength,
    ↓reduceIte, writeAtomic, acceptsTmp, accepts, metadataFromFile, OrderedMaps.getElem?_insert_self]
  rfl

theorem localStore_of_refused {bundle : CaseBundle Environment Envelope} (dir : Directory) (now : ℕ)
    {sanitized : List UInt8} (valid : validateArtifactId id = .ok ())
    (h : saveSanitizedCaseBundleJson host.serde bundle = some (.ok sanitized))
    (refused : ¬(host.accepts (artifactPath id) = true ∧ host.accepts (artifactPath id ++ ".tmp") = true)) :
    ∃ dir', LocalArtifactStore.storeArtifact host dir now id bundle = some (.error .io, dir') := by
  have hlength := Nat.not_lt.mpr (sanitized_length_le host h)
  simp only [LocalArtifactStore.storeArtifact, valid, h, Option.map_some, maxArtifactJsonBytes, hlength,
    ↓reduceIte, writeAtomic]
  cases htmp : host.accepts (artifactPath id ++ ".tmp") with
  | false => exact ⟨dir, rfl⟩
  | true =>
    cases hpath : host.accepts (artifactPath id) with
    | false => exact ⟨_, rfl⟩
    | true => exact absurd ⟨hpath, htmp⟩ refused

theorem memoryStore_of_error {bundle : CaseBundle Environment Envelope} (entries : Entries)
    {e : BundlePersistError} (valid : validateArtifactId id = .ok ())
    (h : saveCaseBundleJson host.serde bundle = .error e) :
    MemoryArtifactStore.storeArtifact host entries now id bundle = (.error (.persistence e), entries) := by
  simp only [MemoryArtifactStore.storeArtifact, valid, h]

theorem memoryStore_of_ok {bundle : CaseBundle Environment Envelope} (entries : Entries) {raw : List UInt8}
    (valid : validateArtifactId id = .ok ()) (h : saveCaseBundleJson host.serde bundle = .ok raw) :
    MemoryArtifactStore.storeArtifact host entries now id bundle =
      (.ok ⟨id, id ++ ".json", raw.length, host.toRfc3339 now⟩, entries.insert id ⟨raw, now, none⟩) := by
  simp only [MemoryArtifactStore.storeArtifact, valid, h]
  rfl

theorem store_agree_iff (stores : Stores) {bundle : CaseBundle Environment Envelope}
    (valid : validateArtifactId id = .ok ()) :
    Agree host stores ⟨now, .store id bundle⟩ ↔ Storable host id bundle := by
  simp only [Agree, localCall, memoryCall, Storable]
  cases hsan : saveSanitizedCaseBundleJson host.serde bundle with
  | none =>
    simp only [LocalArtifactStore.storeArtifact, valid, hsan, Option.map_none, reduceCtorEq, exists_false,
      and_false, false_and, or_false]
  | some json =>
    cases json with
    | error e =>
      rw [localStore_of_error host stores.dir valid hsan]
      cases hraw : saveCaseBundleJson host.serde bundle with
      | error e' =>
        rw [memoryStore_of_error host stores.entries valid hraw]
        simp
      | ok raw =>
        rw [memoryStore_of_ok host stores.entries valid hraw]
        simp
    | ok sanitized =>
      by_cases haccepts : host.accepts (artifactPath id) = true ∧ host.accepts (artifactPath id ++ ".tmp") = true
      · rw [localStore_of_ok host stores.dir valid hsan haccepts.1 haccepts.2]
        cases hraw : saveCaseBundleJson host.serde bundle with
        | error e =>
          rw [memoryStore_of_error host stores.entries valid hraw]
          simp
        | ok raw =>
          rw [memoryStore_of_ok host stores.entries valid hraw]
          simp [haccepts, eq_comm]
      · obtain ⟨dir, hstore⟩ := localStore_of_refused host stores.dir now valid hsan haccepts
        rw [hstore]
        cases hraw : saveCaseBundleJson host.serde bundle with
        | error e =>
          rw [memoryStore_of_error host stores.entries valid hraw]
          simp
        | ok raw =>
          rw [memoryStore_of_ok host stores.entries valid hraw]
          simp [haccepts]

def listed (dir : Directory) (entry : String × FileEntry) : Option ArtifactMetadata :=
  (jsonStem entry.1).bind fun id => (metadataFromFile host dir id entry.1).toOption

theorem Mirror.foldl_listEntry (mirror : Mirror stores) (found : List (String × FileEntry))
    (artifacts : List ArtifactMetadata) :
    found.foldl (listEntry host now) (artifacts, stores.dir) =
      (artifacts ++ found.filterMap (listed host stores.dir), stores.dir) := by
  induction found generalizing artifacts with
  | nil => rw [List.foldl_nil, List.filterMap_nil, List.append_nil]
  | cons entry found ih =>
    rw [List.foldl_cons, List.filterMap_cons]
    cases hstem : jsonStem entry.1 with
    | none =>
      have hstep : listEntry host now (artifacts, stores.dir) entry = (artifacts, stores.dir) := by
        simp only [listEntry, hstem]
      simp only [hstep, ih, listed, hstem, Option.bind_none]
    | some id =>
      cases hfile : metadataFromFile host stores.dir id entry.1 with
      | error e =>
        have hstep : listEntry host now (artifacts, stores.dir) entry = (artifacts, stores.dir) := by
          simp only [listEntry, hstem, mirror.purgeIfExpired_eq, Bool.false_eq_true, ↓reduceIte, hfile]
        simp only [hstep, ih, listed, hstem, Option.bind_some, hfile, Except.toOption]
      | ok metadata =>
        have hstep : listEntry host now (artifacts, stores.dir) entry =
            (artifacts ++ [metadata], stores.dir) := by
          simp only [listEntry, hstem, mirror.purgeIfExpired_eq, Bool.false_eq_true, ↓reduceIte, hfile]
        simp only [hstep, ih, listed, hstem, Option.bind_some, hfile, Except.toOption, List.append_assoc,
          List.singleton_append]

def metadataOf (entries : Entries) (id : String) : Option ArtifactMetadata :=
  (entries[id]?).map (metadataFor host id)

theorem Mirror.listed_eq (mirror : Mirror stores) {entry : String × FileEntry}
    (h : stores.dir[entry.1]? = some entry.2) :
    listed host stores.dir entry = (jsonStem entry.1).bind (metadataOf host stores.entries) := by
  cases hstem : jsonStem entry.1 with
  | none => simp only [listed, hstem, Option.bind_none]
  | some id =>
    have hname := eq_artifactPath_of_jsonStem hstem
    have halike := mirror.alike id
    rw [← hname, h, Option.map_some] at halike
    cases hentry : stores.entries[id]? with
    | none =>
      rw [hentry] at halike
      cases halike
    | some stored =>
      rw [hentry, Option.map_some, Option.some_inj, Prod.mk.injEq] at halike
      simp only [listed, hstem, Option.bind_some, metadataFromFile, h, Except.toOption, metadataOf, hentry,
        Option.map_some, metadataFor, halike]

theorem Mirror.localList_eq (mirror : Mirror stores) (readDir : Enumeration (String × FileEntry)) :
    LocalArtifactStore.listArtifacts host stores.dir now readDir =
      (.ok (newestFirst ((localIds stores.dir readDir).filterMap (metadataOf host stores.entries))),
        stores.dir) := by
  have hlisted : (readDir.order stores.dir.toList).filterMap (listed host stores.dir) =
      (localIds stores.dir readDir).filterMap (metadataOf host stores.entries) := by
    rw [localIds, List.filterMap_filterMap]
    apply List.filterMap_congr
    intro entry hentry
    apply mirror.listed_eq
    exact ExtTreeMap.mem_toList_iff_getElem?_eq_some.mp ((readDir.perm _).mem_iff.mp hentry)
  rw [LocalArtifactStore.listArtifacts, mirror.foldl_listEntry, List.nil_append, hlisted]

theorem Mirror.memoryList_eq (mirror : Mirror stores) (iter : Enumeration (String × MemoryEntry)) :
    MemoryArtifactStore.listArtifacts host stores.entries now iter =
      (.ok (newestFirst ((memoryIds stores.entries iter).filterMap (metadataOf host stores.entries))),
        stores.entries) := by
  have hlisted : (memoryIds stores.entries iter).filterMap (metadataOf host stores.entries) =
      (iter.order stores.entries.toList).map fun entry => metadataFor host entry.1 entry.2 := by
    rw [memoryIds, List.filterMap_map, ← List.filterMap_eq_map]
    apply List.filterMap_congr
    intro entry hentry
    have hget := ExtTreeMap.mem_toList_iff_getElem?_eq_some.mp ((iter.perm _).mem_iff.mp hentry)
    simp only [Function.comp_apply, metadataOf, hget, Option.map_some]
  simp only [MemoryArtifactStore.listArtifacts, mirror.unexpired_eq, hlisted]

theorem filter_metadata (entries : Entries) (ids : List String) (time : String) :
    (ids.filterMap (metadataOf host entries)).filter (·.createdAt = time) =
      (ids.filter (storedAt host entries · = some time)).filterMap (metadataOf host entries) := by
  induction ids with
  | nil => rfl
  | cons id ids ih =>
    cases hentry : entries[id]? with
    | none =>
      have hmeta : metadataOf host entries id = none := by rw [metadataOf, hentry, Option.map_none]
      have hstored : storedAt host entries id = none := by rw [storedAt, hentry, Option.map_none]
      simp only [List.filterMap_cons, hmeta, List.filter_cons, hstored, reduceCtorEq, decide_false,
        Bool.false_eq_true, ↓reduceIte, ih]
    | some entry =>
      have hmeta : metadataOf host entries id = some (metadataFor host id entry) := by
        rw [metadataOf, hentry, Option.map_some]
      have hstored : storedAt host entries id = some (metadataFor host id entry).createdAt := by
        rw [storedAt, hentry, Option.map_some]
        rfl
      simp only [List.filterMap_cons, hmeta, List.filter_cons, hstored, Option.some_inj, ih]
      split_ifs
      · rw [List.filterMap_cons, hmeta]
      · rfl

theorem map_id_metadata {entries : Entries} {ids : List String} {time : String}
    (h : ∀ id ∈ ids, storedAt host entries id = some time) :
    (ids.filterMap (metadataOf host entries)).map ArtifactMetadata.id = ids := by
  induction ids with
  | nil => rfl
  | cons id ids ih =>
    rw [List.forall_mem_cons] at h
    cases hentry : entries[id]? with
    | none =>
      rw [storedAt, hentry] at h
      cases h.1
    | some entry =>
      rw [List.filterMap_cons, metadataOf, hentry, Option.map_some, List.map_cons, ih h.2]
      rfl

theorem newestFirst_eq_iff (entries : Entries) (ids ids' : List String) :
    newestFirst (ids.filterMap (metadataOf host entries)) = newestFirst (ids'.filterMap (metadataOf host entries)) ↔
      ∀ time, ids.filter (storedAt host entries · = some time) =
        ids'.filter (storedAt host entries · = some time) := by
  have hstored : ∀ (l : List String) (time : String),
      ∀ id ∈ l.filter (storedAt host entries · = some time), storedAt host entries id = some time := by
    intro l time id hid
    exact of_decide_eq_true (List.mem_filter.mp hid).2
  rw [newestFirst, newestFirst, sortByKey_eq_iff]
  constructor
  · intro h time
    have htime := h (OrderDual.toDual time)
    simp only [EmbeddingLike.apply_eq_iff_eq, filter_metadata] at htime
    rw [← map_id_metadata host (hstored ids time), htime, map_id_metadata host (hstored ids' time)]
  · intro h key
    have hkey := filter_metadata host entries ids (OrderDual.ofDual key)
    have hkey' := filter_metadata host entries ids' (OrderDual.ofDual key)
    rw [h, ← hkey'] at hkey
    exact hkey

theorem list_agree_iff (mirror : Mirror stores) (readDir : Enumeration (String × FileEntry))
    (iter : Enumeration (String × MemoryEntry)) :
    Agree host stores ⟨now, .list readDir iter⟩ ↔ TiesAlike host stores readDir iter := by
  rw [TiesAlike, ← newestFirst_eq_iff]
  simp only [Agree, localCall, memoryCall, Option.some_inj, Answer.listed.injEq, exists_const]
  rw [mirror.localList_eq, mirror.memoryList_eq, Except.ok.injEq]

theorem invalid_agree {bundle : CaseBundle Environment Envelope} {e : StorageError}
    (invalid : validateArtifactId id = .error e) : Agree host stores ⟨now, .store id bundle⟩ := by
  refine ⟨0, ?_⟩
  simp only [localCall, LocalArtifactStore.storeArtifact, memoryCall, MemoryArtifactStore.storeArtifact, invalid]

theorem delete_agree (stores : Stores) (id : String) : Agree host stores ⟨now, .delete id⟩ := by
  refine ⟨0, ?_⟩
  simp only [localCall, LocalArtifactStore.deleteArtifact, memoryCall, MemoryArtifactStore.deleteArtifact]
  cases validateArtifactId id <;> rfl

theorem exist_agree (mirror : Mirror stores) (id : String) : Agree host stores ⟨now, .exist id⟩ := by
  refine ⟨0, ?_⟩
  simp only [localCall, LocalArtifactStore.artifactExists, memoryCall, MemoryArtifactStore.artifactExists]
  cases validateArtifactId id with
  | error e => rfl
  | ok _ =>
    simp only [mirror.purgeIfExpired_eq, mirror.liveEntry_eq, mirror.contains_eq, Bool.not_false, Bool.true_and]

theorem retrieve_never_returns (id : String) (fuel : ℕ) :
    LocalArtifactStore.retrieveArtifact host id fuel = none ∧
      LocalArtifactStore.retrieveArtifactBytes host id fuel = none := by
  induction fuel with
  | zero => exact ⟨rfl, rfl⟩
  | succ fuel ih =>
    constructor
    · rw [LocalArtifactStore.retrieveArtifact, ih.2, Option.map_none]
    · rw [LocalArtifactStore.retrieveArtifactBytes, ih.1, Option.map_none]

theorem retrieve_disagree (stores : Stores) (id : String) : ¬Agree host stores ⟨now, .retrieve id⟩ := by
  rintro ⟨fuel, h⟩
  simp only [localCall, (retrieve_never_returns host id fuel).1, Option.map_none, reduceCtorEq] at h

theorem agree_iff_meets (mirror : Mirror stores) (call : Call Environment Envelope) :
    Agree host stores call ↔ Meets host stores call := by
  obtain ⟨now, operation⟩ := call
  cases operation with
  | store id bundle =>
    cases hvalid : validateArtifactId id with
    | error e =>
      simp only [Meets, hvalid, reduceCtorEq, false_implies, iff_true]
      exact invalid_agree host hvalid
    | ok _ =>
      simp only [Meets, hvalid, true_implies]
      exact store_agree_iff host stores hvalid
  | retrieve id => exact iff_of_false (retrieve_disagree host stores id) not_false
  | delete id => exact iff_of_true (delete_agree host stores id) trivial
  | exist id => exact iff_of_true (exist_agree host mirror id) trivial
  | list readDir iter => exact list_agree_iff host mirror readDir iter

theorem Mirror.written (mirror : Mirror stores) {raw sanitized : List UInt8}
    (hlength : raw.length = sanitized.length) :
    Mirror ⟨written stores.dir (artifactPath id) sanitized now,
      stores.entries.insert id ⟨raw, now, none⟩⟩ := by
  refine ⟨fun other => ?_, fun other entry h => ?_, fun other => ?_⟩
  · by_cases hid : id = other
    · subst hid
      simp only [StoreAgreement.written, OrderedMaps.getElem?_insert_self, Option.map_some, hlength]
    · have hpath : artifactPath id ≠ artifactPath other := fun h => hid (artifactPath_injective h)
      have htmp : artifactPath id ++ ".tmp" ≠ artifactPath other := tmpPath_ne_artifactPath
      simp only [StoreAgreement.written, OrderedMaps.getElem?_insert_of_ne _ _ hpath,
        OrderedMaps.getElem?_insert_of_ne _ _ hid, ExtTreeMap.getElem?_erase, LawfulEqCmp.compare_eq_iff_eq, htmp,
        ↓reduceIte, mirror.alike]
  · by_cases hid : id = other
    · subst hid
      rw [OrderedMaps.getElem?_insert_self, Option.some_inj] at h
      rw [← h]
    · rw [OrderedMaps.getElem?_insert_of_ne _ _ hid] at h
      exact mirror.unexpiring other entry h
  · have hpath : artifactPath id ≠ ttlPath other := artifactPath_ne_ttlPath
    have htmp : artifactPath id ++ ".tmp" ≠ ttlPath other := tmpPath_ne_ttlPath
    simp only [StoreAgreement.written, OrderedMaps.getElem?_insert_of_ne _ _ hpath, ExtTreeMap.getElem?_erase,
      LawfulEqCmp.compare_eq_iff_eq, htmp, ↓reduceIte, mirror.noSidecar]

theorem Mirror.erase (mirror : Mirror stores) (id : String) :
    Mirror ⟨(stores.dir.erase (artifactPath id)).erase (ttlPath id), stores.entries.erase id⟩ := by
  refine ⟨fun other => ?_, fun other entry h => ?_, fun other => ?_⟩
  · have hne : ttlPath id ≠ artifactPath other := fun h => artifactPath_ne_ttlPath h.symm
    simp only [ExtTreeMap.getElem?_erase, LawfulEqCmp.compare_eq_iff_eq, hne, ↓reduceIte,
      artifactPath_injective.eq_iff]
    split_ifs
    · rfl
    · exact mirror.alike other
  · rw [ExtTreeMap.getElem?_erase] at h
    split_ifs at h
    exact mirror.unexpiring other entry h
  · simp only [ExtTreeMap.getElem?_erase, mirror.noSidecar, ite_self]

theorem Mirror.step (mirror : Mirror stores) (call : Call Environment Envelope)
    (agree : Agree host stores call) : Mirror (StoreAgreement.step host stores call) := by
  obtain ⟨now, operation⟩ := call
  cases operation with
  | store id bundle =>
    cases hvalid : validateArtifactId id with
    | error e =>
      have hsame : StoreAgreement.step host stores ⟨now, .store id bundle⟩ = stores := by
        simp only [StoreAgreement.step, localCall, memoryCall, LocalArtifactStore.storeArtifact,
          MemoryArtifactStore.storeArtifact, hvalid]
      rwa [hsame]
    | ok _ =>
      obtain ⟨e, hraw, hsan⟩ | ⟨raw, sanitized, hraw, hsan, hlength, haccepts, htmp⟩ :=
        (store_agree_iff host stores hvalid).mp agree
      · have hsame : StoreAgreement.step host stores ⟨now, .store id bundle⟩ = stores := by
          simp only [StoreAgreement.step, localCall, memoryCall, localStore_of_error host _ hvalid hsan,
            memoryStore_of_error host _ hvalid hraw]
        rwa [hsame]
      · simp only [StoreAgreement.step, localCall, memoryCall, localStore_of_ok host _ hvalid hsan haccepts htmp,
          memoryStore_of_ok host _ hvalid hraw]
        exact mirror.written hlength
  | retrieve id => exact absurd agree (retrieve_disagree host stores id)
  | delete id =>
    simp only [StoreAgreement.step, localCall, memoryCall, LocalArtifactStore.deleteArtifact,
      MemoryArtifactStore.deleteArtifact]
    cases validateArtifactId id with
    | error e => exact mirror
    | ok _ => exact mirror.erase id
  | exist id =>
    simp only [StoreAgreement.step, localCall, memoryCall, LocalArtifactStore.artifactExists,
      MemoryArtifactStore.artifactExists]
    cases validateArtifactId id with
    | error e => exact mirror
    | ok _ =>
      simp only [mirror.purgeIfExpired_eq, mirror.liveEntry_eq]
      exact mirror
  | list readDir iter =>
    simp only [StoreAgreement.step, localCall, memoryCall]
    rw [mirror.localList_eq, mirror.memoryList_eq]
    exact mirror

theorem run_agrees_iff (calls : List (Call Environment Envelope)) :
    EachStep (StoreAgreement.step host) (Agree host) ⟨∅, ∅⟩ calls ↔
      EachStep (StoreAgreement.step host) (Meets host) ⟨∅, ∅⟩ calls := by
  apply eachStep_iff (I := Mirror)
  · exact fun stores call mirror agree => mirror.step host call agree
  · exact fun stores call mirror => agree_iff_meets host mirror call
  · exact mirror_empty

theorem missing_artifact_disagrees : ¬∃ host : Host Unit Unit,
    EachStep (StoreAgreement.step host) (Agree host) ⟨∅, ∅⟩ [⟨0, .retrieve "case-1"⟩] := by
  rintro ⟨host, agree, -⟩
  obtain ⟨fuel, h⟩ := agree
  simp only [localCall, (retrieve_never_returns host "case-1" fuel).1, Option.map_none, reduceCtorEq] at h

end Stores

end CrashLab.StoreAgreement
