import Mathlib.Data.List.Lex
import Mathlib.Data.Prod.Lex
import Mathlib.Data.String.Basic
import CrashLab.Digest
import CrashLab.MachineInts
import CrashLab.Sorting

namespace CrashLab.Archive

open Digest MachineInts SignatureHash Sorting

def corpusArchiveFormatVersion : ℕ := 1

def supportedArchiveFormats : List ℕ := [corpusArchiveFormatVersion]

def currentEngineVersion : String := "0.1.0"

def seedPreimage (seed : CaseSeed) : List UInt8 :=
  toLeBytes seed.id ++ toLeBytes seed.payload.length ++ seed.payload

def seedOrder (seed : CaseSeed) : ℕ ×ₗ List ℕ := toLex (seed.id, seed.payload.map UInt8.toNat)

structure ArchiveEntry where
  contentHash : String
  id : ℕ
  payloadLen : ℕ
  tags : List String
deriving DecidableEq, Repr

structure ArchiveManifest where
  schema : ℕ
  engineVersion : String
  seedCount : ℕ
  entries : List ArchiveEntry
  provenanceTags : List String
  coverageNotes : Option String
  manifestHash : String
deriving DecidableEq, Repr

structure TaggedSeed where
  seed : CaseSeed
  tags : List String
deriving DecidableEq, Repr

structure CorpusArchive where
  manifest : ArchiveManifest
  seeds : List CaseSeed
deriving DecidableEq, Repr

inductive ArchiveError where
  | json (message : String)
  | unsupportedSchema (found : ℕ)
  | contentHashMismatch (index : ℕ) (expected found : String)
  | manifestHashMismatch (expected found : String)
  | seedCountMismatch (declared entries packed : ℕ)
  | entryMismatch (index : ℕ) (detail : String)
  | engineMismatch (archive current : String)
deriving DecidableEq, Repr

def pushEntry (out : List UInt8) (entry : ArchiveEntry) : List UInt8 :=
  let out := pushField out "entry_hash" entry.contentHash
  let out := pushField out "entry_id" (toString entry.id)
  let out := pushField out "entry_len" (toString entry.payloadLen)
  entry.tags.foldl (fun out tag => pushField out "entry_tag" tag) out

def manifestCanonicalEncoding (manifest : ArchiveManifest) : List UInt8 :=
  let out := pushField [] "schema" (toString manifest.schema)
  let out := pushField out "engine_version" manifest.engineVersion
  let out := pushField out "seed_count" (toString manifest.seedCount)
  let out := manifest.entries.foldl pushEntry out
  let out := manifest.provenanceTags.foldl (fun out tag => pushField out "prov_tag" tag) out
  pushField out "coverage" (manifest.coverageNotes.getD "")

variable (sha256 : List UInt8 → List UInt8)

def seedContentHash (seed : CaseSeed) : String := sha256Hex sha256 (seedPreimage seed)

def computeManifestHash (manifest : ArchiveManifest) : String :=
  sha256Hex sha256 (manifestCanonicalEncoding manifest)

def packEntry (ts : TaggedSeed) : ArchiveEntry where
  contentHash := seedContentHash sha256 ts.seed
  id := ts.seed.id
  payloadLen := ts.seed.payload.length
  tags := sortDedup ts.tags

namespace CorpusArchive

def buildTagged (seeds : List TaggedSeed) (provenanceTags : List String) (coverageNotes : Option String) :
    CorpusArchive :=
  let sorted := sortByKey (fun ts : TaggedSeed => seedOrder ts.seed) seeds
  let packed := sorted.map TaggedSeed.seed
  let manifest : ArchiveManifest :=
    { schema := corpusArchiveFormatVersion
      engineVersion := currentEngineVersion
      seedCount := packed.length
      entries := sorted.map (packEntry sha256)
      provenanceTags := sortDedup provenanceTags
      coverageNotes
      manifestHash := "" }
  { manifest := { manifest with manifestHash := computeManifestHash sha256 manifest }
    seeds := packed }

def checkEntry (index : ℕ) (entry : ArchiveEntry) (seed : CaseSeed) : Except ArchiveError Unit :=
  if entry.id ≠ seed.id then
    .error (.entryMismatch index s!"id {entry.id} does not match seed id {seed.id}")
  else if entry.payloadLen ≠ seed.payload.length then
    .error (.entryMismatch index
      s!"payload_len {entry.payloadLen} does not match actual {seed.payload.length}")
  else if entry.contentHash ≠ seedContentHash sha256 seed then
    .error (.contentHashMismatch index entry.contentHash (seedContentHash sha256 seed))
  else .ok ()

def checkEntries : ℕ → List (ArchiveEntry × CaseSeed) → Except ArchiveError Unit
  | _, [] => .ok ()
  | index, (entry, seed) :: packed => do
    checkEntry sha256 index entry seed
    checkEntries (index + 1) packed

def verify (archive : CorpusArchive) : Except ArchiveError Unit :=
  let manifest := archive.manifest
  if manifest.schema ∉ supportedArchiveFormats then .error (.unsupportedSchema manifest.schema)
  else if manifest.seedCount ≠ archive.seeds.length ∨ manifest.entries.length ≠ archive.seeds.length then
    .error (.seedCountMismatch manifest.seedCount manifest.entries.length archive.seeds.length)
  else do
    checkEntries sha256 0 (manifest.entries.zip archive.seeds)
    if manifest.manifestHash ≠ computeManifestHash sha256 manifest then
      .error (.manifestHashMismatch manifest.manifestHash (computeManifestHash sha256 manifest))
    else .ok ()

def fromJson (parse : List UInt8 → Except String CorpusArchive) (bytes : List UInt8) :
    Except ArchiveError CorpusArchive := do
  let archive ← (parse bytes).mapError .json
  verify sha256 archive
  return archive

variable {sha256}

structure Matches (sha256 : List UInt8 → List UInt8) (entry : ArchiveEntry) (seed : CaseSeed) : Prop where
  id : entry.id = seed.id
  payloadLen : entry.payloadLen = seed.payload.length
  contentHash : entry.contentHash = seedContentHash sha256 seed

structure Verified (sha256 : List UInt8 → List UInt8) (archive : CorpusArchive) : Prop where
  schema : archive.manifest.schema = corpusArchiveFormatVersion
  seedCount : archive.manifest.seedCount = archive.seeds.length
  entryCount : archive.manifest.entries.length = archive.seeds.length
  entries : ∀ packed ∈ archive.manifest.entries.zip archive.seeds, Matches sha256 packed.1 packed.2
  manifestHash : archive.manifest.manifestHash = computeManifestHash sha256 archive.manifest

theorem checkEntry_ok_iff {index : ℕ} {entry : ArchiveEntry} {seed : CaseSeed} :
    checkEntry sha256 index entry seed = .ok () ↔ Matches sha256 entry seed := by
  unfold checkEntry
  split_ifs with hid hlen hhash
  · exact ⟨fun h => (nomatch h), fun h => absurd h.id hid⟩
  · exact ⟨fun h => (nomatch h), fun h => absurd h.payloadLen hlen⟩
  · exact ⟨fun h => (nomatch h), fun h => absurd h.contentHash hhash⟩
  · exact ⟨fun _ => ⟨not_not.mp hid, not_not.mp hlen, not_not.mp hhash⟩, fun _ => rfl⟩

theorem bind_eq_ok {ε β : Type} {check : Except ε Unit} {next : Except ε β} {b : β} :
    (check >>= fun _ => next) = .ok b ↔ check = .ok () ∧ next = .ok b := by
  cases check with
  | error e => exact ⟨fun h => (nomatch h), fun h => (nomatch h.1)⟩
  | ok u => exact ⟨fun h => ⟨rfl, h⟩, fun h => h.2⟩

theorem checkEntries_ok_iff {index : ℕ} {packed : List (ArchiveEntry × CaseSeed)} :
    checkEntries sha256 index packed = .ok () ↔ ∀ p ∈ packed, Matches sha256 p.1 p.2 := by
  induction packed generalizing index with
  | nil => simp [checkEntries]
  | cons p packed ih => rw [checkEntries, bind_eq_ok, checkEntry_ok_iff, ih, List.forall_mem_cons]

theorem verify_ok_iff {archive : CorpusArchive} :
    verify sha256 archive = .ok () ↔ Verified sha256 archive := by
  unfold verify
  simp only
  by_cases hschema : archive.manifest.schema ∈ supportedArchiveFormats
  · rw [if_neg (not_not.mpr hschema)]
    split_ifs with hcount hhash
    · apply iff_of_false (fun h => nomatch h)
      intro h
      rcases hcount with hcount | hcount
      · exact hcount h.seedCount
      · exact hcount h.entryCount
    · rw [bind_eq_ok]
      exact iff_of_false (fun h => nomatch h.2) (fun h => hhash h.manifestHash)
    · rw [bind_eq_ok, checkEntries_ok_iff]
      rw [not_or, not_not, not_not] at hcount
      constructor
      · intro h
        exact ⟨List.mem_singleton.mp hschema, hcount.1, hcount.2, h.1, not_not.mp hhash⟩
      · intro h
        exact ⟨h.entries, rfl⟩
  · rw [if_pos hschema]
    apply iff_of_false (fun h => nomatch h)
    intro h
    exact hschema (List.mem_singleton.mpr h.schema)

theorem fromJson_ok_iff {parse : List UInt8 → Except String CorpusArchive} {bytes : List UInt8}
    {archive : CorpusArchive} :
    fromJson sha256 parse bytes = .ok archive ↔ parse bytes = .ok archive ∧ Verified sha256 archive := by
  rw [← verify_ok_iff, fromJson]
  cases parse bytes with
  | error message => exact ⟨fun h => (nomatch h), fun h => (nomatch h.1)⟩
  | ok parsed =>
    change (verify sha256 parsed >>= fun _ => pure parsed) = _ ↔ _
    rw [bind_eq_ok, Except.ok.injEq]
    constructor
    · rintro ⟨hverify, hparsed⟩
      cases hparsed
      exact ⟨rfl, hverify⟩
    · rintro ⟨rfl, hverify⟩
      exact ⟨hverify, rfl⟩

theorem packEntry_matches (ts : TaggedSeed) : Matches sha256 (packEntry sha256 ts) ts.seed := ⟨rfl, rfl, rfl⟩

theorem buildTagged_verified (seeds : List TaggedSeed) (provenanceTags : List String)
    (coverageNotes : Option String) :
    Verified sha256 (buildTagged sha256 seeds provenanceTags coverageNotes) where
  schema := rfl
  seedCount := rfl
  entryCount := by simp [buildTagged]
  entries := by
    rintro ⟨entry, seed⟩ hmem
    simp only [buildTagged, List.zip_map', List.mem_map] at hmem
    obtain ⟨ts, _, hts⟩ := hmem
    cases hts
    exact packEntry_matches ts
  manifestHash := rfl

end CorpusArchive

end CrashLab.Archive
