import CrashLab.BundlePersist
import CrashLab.OrderedMaps
import CrashLab.Sorting
import CrashLab.Texts
import Mathlib.Data.String.Basic

namespace CrashLab.ArtifactStorage

open BundlePersist Sorting Std Texts

def maxArtifactJsonBytes : ℕ := maxBundleJsonBytes

inductive StorageError where
  | io
  | persistence (error : BundlePersistError)
  | notFound (artifactId : String)
  | invalidId (artifactId : String)
  | corrupt (artifactId detail : String)
deriving DecidableEq, Repr

def display : BundlePersistError → String
  | .json detail => "bundle JSON error: " ++ detail
  | .unsupportedSchema found =>
    "unsupported bundle schema version " ++ toString found ++ " (supported: " ++
      toString supportedBundleSchemas ++ ")"
  | .sizeLimit limit => "bundle exceeds the configured " ++ toString limit ++ "-byte size limit"

structure ArtifactMetadata where
  id : String
  name : String
  sizeBytes : ℕ
  createdAt : String
deriving DecidableEq, Repr

def validateArtifactId (id : String) : Except StorageError Unit :=
  if id = "" ∨ id = ".." ∨ '/' ∈ id.toList ∨ '\\' ∈ id.toList then .error (.invalidId id) else .ok ()

structure Host (Environment Envelope : Type) where
  serde : Serde Environment Envelope
  /-- The file system takes a file of this name. -/
  accepts : String → Bool
  toRfc3339 : ℕ → String

structure Enumeration (α : Type) where
  order : List α → List α
  perm : ∀ l, (order l).Perm l

def newestFirst (artifacts : List ArtifactMetadata) : List ArtifactMetadata :=
  sortByKey (fun metadata => OrderDual.toDual metadata.createdAt) artifacts

variable {Environment Envelope : Type} (host : Host Environment Envelope)

structure FileEntry where
  bytes : List UInt8
  modified : ℕ
deriving DecidableEq, Repr

abbrev Directory := ExtTreeMap String FileEntry compare

namespace LocalArtifactStore

def artifactPath (artifactId : String) : String := artifactId ++ ".json"

def ttlPath (artifactId : String) : String := artifactId ++ ".ttl"

def writeAtomic (dir : Directory) (path : String) (bytes : List UInt8) (now : ℕ) :
    Except StorageError Unit × Directory :=
  let tmpPath := path ++ ".tmp"
  if host.accepts tmpPath then
    if host.accepts path then (.ok (), (dir.erase tmpPath).insert path ⟨bytes, now⟩)
    else (.error .io, dir.insert tmpPath ⟨bytes, now⟩)
  else (.error .io, dir)

def ttlExpiryEpoch (dir : Directory) (artifactId : String) : Option ℕ := do
  let file ← dir[ttlPath artifactId]?
  let contents ← String.fromUTF8? ⟨file.bytes.toArray⟩
  parseU64 (trim contents.toList)

def purgeIfExpired (dir : Directory) (now : ℕ) (artifactId : String) : Bool × Directory :=
  match ttlExpiryEpoch dir artifactId with
  | none => (false, dir)
  | some expiry =>
    if now < expiry then (false, dir)
    else (true, (dir.erase (artifactPath artifactId)).erase (ttlPath artifactId))

def metadataFromFile (dir : Directory) (artifactId path : String) : Except StorageError ArtifactMetadata :=
  match dir[path]? with
  | none => .error .io
  | some file =>
    .ok
      { id := artifactId
        name := artifactId ++ ".json"
        sizeBytes := file.bytes.length
        createdAt := host.toRfc3339 file.modified }

/-- `none` where the sanitizer does not end. -/
def storeArtifact (dir : Directory) (now : ℕ) (artifactId : String) (bundle : CaseBundle Environment Envelope) :
    Option (Except StorageError ArtifactMetadata × Directory) :=
  match validateArtifactId artifactId with
  | .error e => some (.error e, dir)
  | .ok () =>
    (saveSanitizedCaseBundleJson host.serde bundle).map fun json =>
      match json with
      | .error e => (.error (.persistence e), dir)
      | .ok bytes =>
        if maxArtifactJsonBytes < bytes.length then
          (.error (.persistence (.sizeLimit maxArtifactJsonBytes)), dir)
        else
          match writeAtomic host dir (artifactPath artifactId) bytes now with
          | (.error e, dir) => (.error e, dir)
          | (.ok (), dir) => (metadataFromFile host dir artifactId (artifactPath artifactId), dir)

-- The store does not override `retrieve_artifact_bytes`, and the method it gets from the trait asks
-- `retrieve_artifact` for the bundle; `none` is a call that has not returned within `fuel` calls.
mutual

def retrieveArtifact (artifactId : String) : (fuel : ℕ) →
    Option (Except StorageError (CaseBundle Environment Envelope))
  | 0 => none
  | fuel + 1 =>
    (retrieveArtifactBytes artifactId fuel).map fun bytes => do
      let bytes ← bytes
      if maxArtifactJsonBytes < bytes.length then
        throw (.persistence (.sizeLimit maxArtifactJsonBytes))
      (loadCaseBundleJson host.serde bytes).mapError fun e => .corrupt artifactId (display e)

def retrieveArtifactBytes (artifactId : String) : (fuel : ℕ) → Option (Except StorageError (List UInt8))
  | 0 => none
  | fuel + 1 =>
    (retrieveArtifact artifactId fuel).map fun bundle => do
      let bundle ← bundle
      (saveCaseBundleJson host.serde bundle).mapError fun e => .corrupt artifactId (display e)

end

def jsonStem (name : String) : Option String :=
  let stem := name.toList.take (name.toList.length - ".json".toList.length)
  if stem ≠ [] ∧ name.toList = stem ++ ".json".toList then some (String.ofList stem) else none

def listEntry (now : ℕ) (acc : List ArtifactMetadata × Directory) (entry : String × FileEntry) :
    List ArtifactMetadata × Directory :=
  match jsonStem entry.1 with
  | none => acc
  | some artifactId =>
    let (expired, dir) := purgeIfExpired acc.2 now artifactId
    if expired then (acc.1, dir)
    else
      match metadataFromFile host dir artifactId entry.1 with
      | .error _ => (acc.1, dir)
      | .ok metadata => (acc.1 ++ [metadata], dir)

def listArtifacts (dir : Directory) (now : ℕ) (readDir : Enumeration (String × FileEntry)) :
    Except StorageError (List ArtifactMetadata) × Directory :=
  let (artifacts, dir) := (readDir.order dir.toList).foldl (listEntry host now) ([], dir)
  (.ok (newestFirst artifacts), dir)

def deleteArtifact (dir : Directory) (artifactId : String) : Except StorageError Unit × Directory :=
  match validateArtifactId artifactId with
  | .error e => (.error e, dir)
  | .ok () => (.ok (), (dir.erase (artifactPath artifactId)).erase (ttlPath artifactId))

def artifactExists (dir : Directory) (now : ℕ) (artifactId : String) : Bool × Directory :=
  match validateArtifactId artifactId with
  | .error _ => (false, dir)
  | .ok () =>
    let (expired, dir) := purgeIfExpired dir now artifactId
    (!expired && dir.contains (artifactPath artifactId), dir)

end LocalArtifactStore

structure MemoryEntry where
  bytes : List UInt8
  storedAtEpoch : ℕ
  expiresAtEpoch : Option ℕ
deriving DecidableEq, Repr

abbrev Entries := ExtTreeMap String MemoryEntry compare

namespace MemoryArtifactStore

def isExpired (now : ℕ) (entry : MemoryEntry) : Bool := entry.expiresAtEpoch.any (· ≤ now)

def liveEntry (entries : Entries) (now : ℕ) (artifactId : String) : Option MemoryEntry × Entries :=
  match entries[artifactId]? with
  | none => (none, entries)
  | some entry => if isExpired now entry then (none, entries.erase artifactId) else (some entry, entries)

def metadataFor (artifactId : String) (entry : MemoryEntry) : ArtifactMetadata where
  id := artifactId
  name := artifactId ++ ".json"
  sizeBytes := entry.bytes.length
  createdAt := host.toRfc3339 entry.storedAtEpoch

def storeArtifact (entries : Entries) (now : ℕ) (artifactId : String) (bundle : CaseBundle Environment Envelope) :
    Except StorageError ArtifactMetadata × Entries :=
  match validateArtifactId artifactId with
  | .error e => (.error e, entries)
  | .ok () =>
    match saveCaseBundleJson host.serde bundle with
    | .error e => (.error (.persistence e), entries)
    | .ok bytes =>
      let entry : MemoryEntry := ⟨bytes, now, none⟩
      (.ok (metadataFor host artifactId entry), entries.insert artifactId entry)

def retrieveArtifactBytes (entries : Entries) (now : ℕ) (artifactId : String) :
    Except StorageError (List UInt8) × Entries :=
  match validateArtifactId artifactId with
  | .error e => (.error e, entries)
  | .ok () =>
    match liveEntry entries now artifactId with
    | (none, entries) => (.error (.notFound artifactId), entries)
    | (some entry, entries) => (.ok entry.bytes, entries)

def retrieveArtifact (entries : Entries) (now : ℕ) (artifactId : String) :
    Except StorageError (CaseBundle Environment Envelope) × Entries :=
  match retrieveArtifactBytes entries now artifactId with
  | (.error e, entries) => (.error e, entries)
  | (.ok bytes, entries) =>
    ((loadCaseBundleJson host.serde bytes).mapError fun e => .corrupt artifactId (display e), entries)

def listArtifacts (entries : Entries) (now : ℕ) (iter : Enumeration (String × MemoryEntry)) :
    Except StorageError (List ArtifactMetadata) × Entries :=
  let live := entries.filter fun _ entry => !isExpired now entry
  (.ok (newestFirst ((iter.order live.toList).map fun (id, entry) => metadataFor host id entry)), live)

def deleteArtifact (entries : Entries) (artifactId : String) : Except StorageError Unit × Entries :=
  match validateArtifactId artifactId with
  | .error e => (.error e, entries)
  | .ok () => (.ok (), entries.erase artifactId)

def artifactExists (entries : Entries) (now : ℕ) (artifactId : String) : Bool × Entries :=
  match validateArtifactId artifactId with
  | .error _ => (false, entries)
  | .ok () =>
    let (entry, entries) := liveEntry entries now artifactId
    (entry.isSome, entries)

end MemoryArtifactStore

end CrashLab.ArtifactStorage
