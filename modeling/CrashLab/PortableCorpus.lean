import CrashLab.BundlePersist
import CrashLab.CorpusArchive

namespace CrashLab.PortableCorpus

open Archive BundlePersist Digest MachineInts SignatureHash Sorting

def corpusArchiveSchemaVersion : ℕ := 2

def maxCorpusJsonBytes : ℕ := maxBundleJsonBytes

structure AddressedSeed where
  id : ℕ
  payload : List UInt8
  size : ℕ
  hash : String
deriving DecidableEq, Repr

structure CorpusArchive where
  schema : ℕ
  seeds : List CaseSeed
  addressed : Option (List AddressedSeed)
deriving DecidableEq, Repr

inductive CorpusError where
  | json (message : String)
  | unsupportedSchema (found : ℕ)
  | integrity (message : String)
  | sizeLimit (limit : ℕ)
deriving DecidableEq, Repr

structure CorpusSerde where
  toVecPretty : CorpusArchive → Except String (List UInt8)
  fromSlice : List UInt8 → Except String CorpusArchive

section Exchange

variable (sha256 : List UInt8 → List UInt8) (serde : CorpusSerde)

def hashSeedPayload (payload : List UInt8) : String := sha256Hex sha256 payload

def verifySeedIntegrity (seed : AddressedSeed) : Except CorpusError Unit :=
  let computed := hashSeedPayload sha256 seed.payload
  if computed ≠ seed.hash then
    .error (.integrity ("seed " ++ toString seed.id ++ " hash mismatch: expected " ++ seed.hash ++
      ", got " ++ computed))
  else if seed.payload.length ≠ seed.size then
    .error (.integrity ("seed " ++ toString seed.id ++ " size mismatch: expected " ++
      toString seed.size ++ ", got " ++ toString seed.payload.length))
  else .ok ()

def verifySeeds : List AddressedSeed → Except CorpusError Unit
  | [] => .ok ()
  | seed :: seeds =>
    match verifySeedIntegrity sha256 seed with
    | .error e => .error e
    | .ok () => verifySeeds seeds

def sortSeedsDeterministic (seeds : List CaseSeed) : List CaseSeed := sortByKey seedOrder seeds

def AddressedSeed.of (seed : CaseSeed) : AddressedSeed where
  id := asU32 seed.id
  payload := seed.payload
  size := seed.payload.length
  hash := hashSeedPayload sha256 seed.payload

def corpusArchiveFromSeeds (seeds : List CaseSeed) : CorpusArchive where
  schema := corpusArchiveSchemaVersion
  seeds := sortSeedsDeterministic seeds
  addressed := some ((sortSeedsDeterministic seeds).map (.of sha256))

def exportCorpusJson (seeds : List CaseSeed) : Except String (List UInt8) :=
  serde.toVecPretty (corpusArchiveFromSeeds sha256 seeds)

def importCorpusJson (bytes : List UInt8) : Except CorpusError (List CaseSeed) :=
  if bytes.length > maxCorpusJsonBytes then .error (.sizeLimit maxCorpusJsonBytes)
  else
    match serde.fromSlice bytes with
    | .error message => .error (.json message)
    | .ok archive =>
      if archive.schema > corpusArchiveSchemaVersion then .error (.unsupportedSchema archive.schema)
      else
        match verifySeeds sha256 (archive.addressed.getD []) with
        | .error e => .error e
        | .ok () => .ok archive.seeds

theorem verifySeedIntegrity_of (seed : CaseSeed) :
    verifySeedIntegrity sha256 (.of sha256 seed) = .ok () := by
  simp [verifySeedIntegrity, AddressedSeed.of]

theorem verifySeeds_map_of (seeds : List CaseSeed) :
    verifySeeds sha256 (seeds.map (.of sha256)) = .ok () := by
  induction seeds with
  | nil => rfl
  | cons seed seeds ih => rw [List.map_cons, verifySeeds, verifySeedIntegrity_of, ih]

theorem importCorpusJson_eq {seeds altered : List CaseSeed} {bytes : List UInt8}
    (hparse : serde.fromSlice bytes = .ok { corpusArchiveFromSeeds sha256 seeds with seeds := altered }) :
    importCorpusJson sha256 serde bytes =
      if bytes.length > maxCorpusJsonBytes then .error (.sizeLimit maxCorpusJsonBytes)
      else .ok altered := by
  have hverified := verifySeeds_map_of sha256 (sortSeedsDeterministic seeds)
  rw [importCorpusJson, hparse]
  split_ifs with hlarge
  · rfl
  · simp [corpusArchiveFromSeeds, hverified]

end Exchange

theorem corpus_exchange (sha256 : List UInt8 → List UInt8) (serde : CorpusSerde) (seeds : List CaseSeed) :
    (∀ altered bytes,
      serde.fromSlice bytes = .ok { corpusArchiveFromSeeds sha256 seeds with seeds := altered } →
      ((∃ e, importCorpusJson sha256 serde bytes = .error e) ↔ maxCorpusJsonBytes < bytes.length)) ∧
    ∀ bytes, exportCorpusJson sha256 serde seeds = .ok bytes →
      serde.fromSlice bytes = .ok (corpusArchiveFromSeeds sha256 seeds) →
      (importCorpusJson sha256 serde bytes = .ok (sortSeedsDeterministic seeds) ↔
        bytes.length ≤ maxCorpusJsonBytes) := by
  constructor
  · intro altered bytes hparse
    rw [importCorpusJson_eq sha256 serde hparse]
    split_ifs with hlarge
    · simp [hlarge]
    · simp [hlarge]
  · intro bytes _ hparse
    rw [@importCorpusJson_eq sha256 serde seeds (sortSeedsDeterministic seeds) bytes hparse]
    split_ifs with hlarge
    · simp [hlarge]
    · simp [not_lt.mp hlarge]

section Samples

def sampleSha256 (_ : List UInt8) : List UInt8 :=
  [219, 193, 180, 201, 0, 255, 228, 141, 87, 91, 93, 165, 198, 56, 4, 1, 37, 246, 93, 176, 254, 62, 36, 73, 75,
    118, 234, 152, 100, 87, 217, 134]

def alteredText : String :=
  "\x7b\"schema\":2,\"seeds\":[\x7b\"id\":1,\"payload\":[9]\x7d],\"addressed\":[\x7b\"id\":1,\"payload\":[2],\"size\":1," ++
    "\"hash\":\"dbc1b4c900ffe48d575b5da5c638040125f65db0fe3e24494b76ea986457d986\"\x7d]\x7d"

def alteredArchive : CorpusArchive :=
  { corpusArchiveFromSeeds sampleSha256 [⟨1, [2]⟩] with seeds := [⟨1, [9]⟩] }

def sampleSerde (text : String) (archive : CorpusArchive) : CorpusSerde where
  toVecPretty _ := .error "not written here"
  fromSlice bytes := if bytes = asBytes text then .ok archive else .error "expected value"

theorem sampleSerde_parses (text : String) (archive : CorpusArchive) :
    (sampleSerde text archive).fromSlice (asBytes text) = .ok archive := if_pos rfl

def pairSha256 : List UInt8 → List UInt8 :=
  tabulated [([2], sampleSha256 [2]),
    ([3], [8, 79, 237, 8, 185, 120, 175, 77, 125, 25, 106, 116, 70, 168, 107, 88, 0, 158, 99, 107, 97, 29, 177, 98,
      17, 182, 90, 154, 173, 255, 41, 197])]

def pairText : String :=
  "\x7b\n  \"schema\": 2,\n  \"seeds\": [\n    \x7b\n      \"id\": 1,\n      \"payload\": [\n        2\n" ++
    "      ]\n    \x7d,\n    \x7b\n      \"id\": 2,\n      \"payload\": [\n        3\n      ]\n    \x7d\n  ],\n" ++
    "  \"addressed\": [\n    \x7b\n      \"id\": 1,\n      \"payload\": [\n        2\n      ],\n" ++
    "      \"size\": 1,\n      \"hash\": \"dbc1b4c900ffe48d575b5da5c638040125f65db0fe3e24494b76ea986457d986\"\n" ++
    "    \x7d,\n    \x7b\n      \"id\": 2,\n      \"payload\": [\n        3\n      ],\n      \"size\": 1,\n" ++
    "      \"hash\": \"084fed08b978af4d7d196a7446a86b58009e636b611db16211b65a9aadff29c5\"\n    \x7d\n  ]\n\x7d"

def pairArchive : CorpusArchive where
  schema := 2
  seeds := [⟨1, [2]⟩, ⟨2, [3]⟩]
  addressed := some [
    ⟨1, [2], 1, "dbc1b4c900ffe48d575b5da5c638040125f65db0fe3e24494b76ea986457d986"⟩,
    ⟨2, [3], 1, "084fed08b978af4d7d196a7446a86b58009e636b611db16211b65a9aadff29c5"⟩]

def exportSerde (text : String) (archive : CorpusArchive) : CorpusSerde :=
  { sampleSerde text archive with
    toVecPretty := fun written => if written = archive then .ok (asBytes text) else .error "not written here" }

theorem exportSerde_writes (text : String) (archive : CorpusArchive) :
    (exportSerde text archive).toVecPretty archive = .ok (asBytes text) := if_pos rfl

theorem exportSerde_parses (text : String) (archive : CorpusArchive) :
    (exportSerde text archive).fromSlice (asBytes text) = .ok archive := sampleSerde_parses text archive

def pairSerde : CorpusSerde := exportSerde pairText pairArchive

theorem pairArchive_exported : corpusArchiveFromSeeds pairSha256 [⟨2, [3]⟩, ⟨1, [2]⟩] = pairArchive := by
  decide +kernel

end Samples

theorem pair_exchanged :
    exportCorpusJson pairSha256 pairSerde [⟨2, [3]⟩, ⟨1, [2]⟩] = .ok (asBytes pairText) ∧
      importCorpusJson pairSha256 pairSerde (asBytes pairText) = .ok [⟨1, [2]⟩, ⟨2, [3]⟩] := by
  have hexport : exportCorpusJson pairSha256 pairSerde [⟨2, [3]⟩, ⟨1, [2]⟩] = .ok (asBytes pairText) := by
    rw [exportCorpusJson, pairArchive_exported]
    exact exportSerde_writes pairText pairArchive
  have hparse : pairSerde.fromSlice (asBytes pairText) =
      .ok (corpusArchiveFromSeeds pairSha256 [⟨2, [3]⟩, ⟨1, [2]⟩]) := by
    rw [pairArchive_exported]
    exact exportSerde_parses pairText pairArchive
  have hsorted : sortSeedsDeterministic [⟨2, [3]⟩, ⟨1, [2]⟩] = [⟨1, [2]⟩, ⟨2, [3]⟩] := by decide +kernel
  refine ⟨hexport, ?_⟩
  rw [← hsorted]
  exact ((corpus_exchange pairSha256 pairSerde [⟨2, [3]⟩, ⟨1, [2]⟩]).2 _ hexport hparse).mpr (by decide +kernel)

theorem altered_payload_imported :
    alteredArchive.addressed =
        some [⟨1, [2], 1, "dbc1b4c900ffe48d575b5da5c638040125f65db0fe3e24494b76ea986457d986"⟩] ∧
      importCorpusJson sampleSha256 (sampleSerde alteredText alteredArchive) (asBytes alteredText) =
        .ok [⟨1, [9]⟩] := by
  refine ⟨by decide +kernel, ?_⟩
  rw [importCorpusJson_eq sampleSha256 _ (sampleSerde_parses alteredText alteredArchive)]
  exact if_neg (by decide +kernel)

end CrashLab.PortableCorpus
