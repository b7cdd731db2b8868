import CrashLab.Checkpoint
import CrashLab.Digest
import CrashLab.ShiftRegisters

namespace CrashLab.Run

open Digest ShiftRegisters SignatureHash

section Files

structure FilePath where
  stem : String
  extension : String
deriving DecidableEq, Repr

def FilePath.withExtension (path : FilePath) (extension : String) : FilePath := ⟨path.stem, extension⟩

inductive DiskCall where
  | read (path : FilePath)
  | write (path : FilePath)
  | rename (source target : FilePath)
deriving DecidableEq, Repr

structure Disk where
  files : FilePath → Option (List UInt8)
  refuses : DiskCall → Bool

namespace Disk

def read (disk : Disk) (path : FilePath) : Option (List UInt8) :=
  if disk.refuses (.read path) then none else disk.files path

def write (disk : Disk) (path : FilePath) (bytes : List UInt8) : Option Disk :=
  if disk.refuses (.write path) then none
  else some { disk with files := Function.update disk.files path (some bytes) }

def rename (disk : Disk) (source target : FilePath) : Option Disk :=
  if disk.refuses (.rename source target) then none
  else match disk.files source with
    | none => none
    | some bytes => some { disk with
        files := Function.update (Function.update disk.files source none) target (some bytes) }

end Disk

end Files

structure CheckpointSerde where
  toVec : RunCheckpoint → List UInt8
  toVecPretty : RunCheckpoint → Except String (List UInt8)
  fromSlice : List UInt8 → Except String RunCheckpoint

structure LoadedCheckpoint where
  checkpoint : RunCheckpoint
  generation : ℕ
  recovered : Bool

def RunCheckpoint.stamped (toVec : RunCheckpoint → List UInt8) (checkpoint : RunCheckpoint) (generation : ℕ) :
    RunCheckpoint :=
  let cp := { checkpoint with generation }
  { cp with crc32 := cp.computeCrc32 toVec }

theorem crc32_stamped (toVec : RunCheckpoint → List UInt8) (cp : RunCheckpoint) (generation : ℕ) :
    (cp.stamped toVec generation).crc32 = crc32Bytes (toVec { cp with generation, crc32 := 0 }) := rfl

section Persistence

variable (serde : CheckpointSerde)

def RunCheckpoint.verifyCrc (cp : RunCheckpoint) : Bool := cp.crc32 == cp.computeCrc32 serde.toVec

def saveRunCheckpointJson (cp : RunCheckpoint) : Except String (List UInt8) := serde.toVecPretty cp

def RunCheckpoint.upgraded (cp : RunCheckpoint) : RunCheckpoint :=
  if cp.schema < runCheckpointSchemaVersion then { cp with schema := runCheckpointSchemaVersion } else cp

def loadRunCheckpointJson (bytes : List UInt8) : Except String RunCheckpoint :=
  match serde.fromSlice bytes with
  | .error e => .error e
  | .ok cp => .ok cp.upgraded

def writeCheckpointFile (disk : Disk) (path : FilePath) (checkpoint : RunCheckpoint) (generation : ℕ) :
    Except CheckpointError Unit × Disk :=
  let cp := checkpoint.stamped serde.toVec generation
  match saveRunCheckpointJson serde cp with
  | .error _ => (.error (.unsupportedSchema cp.schema), disk)
  | .ok bytes =>
    let tmpPath := path.withExtension "tmp"
    match disk.write tmpPath bytes with
    | none => (.error (.unsupportedSchema cp.schema), disk)
    | some disk =>
      match disk.rename tmpPath path with
      | none => (.error (.unsupportedSchema cp.schema), disk)
      | some disk => (.ok (), disk)

def loadCheckpointFile (disk : Disk) (path : FilePath) : Except CheckpointError LoadedCheckpoint :=
  match disk.read path with
  | none => .error (.unsupportedSchema 0)
  | some bytes =>
    match loadRunCheckpointJson serde bytes with
    | .error _ => .error (.unsupportedSchema 0)
    | .ok cp =>
      -- a checkpoint that carries no checksum is not verified
      if cp.crc32 ≠ 0 ∧ cp.verifyCrc serde = false then
        .error (.crcMismatch cp.crc32 (cp.computeCrc32 serde.toVec))
      else .ok ⟨cp, cp.generation, false⟩

end Persistence

section Checksum

theorem crc32_reflected : Reflected 0xEDB88320 31 := ⟨by decide, by decide⟩

theorem crc32Bytes_eq (data : List UInt8) :
    crc32Bytes data = 0xFFFFFFFF ^^^ feedAll 0xEDB88320 8 UInt8.toNat 0xFFFFFFFF data := rfl

theorem crc32Bytes_ne (before after : List UInt8) {x y : UInt8} (hxy : x ≠ y) :
    crc32Bytes (before ++ x :: after) ≠ crc32Bytes (before ++ y :: after) := by
  have hv : ∀ b : UInt8, b.toNat < 2 ^ (31 + 1) := fun b => b.toNat_lt.trans (by decide)
  have hfed := feedAll_ne crc32_reflected 8 hv (show 0xFFFFFFFF < 2 ^ (31 + 1) by decide) before after
    (fun h => hxy (UInt8.toNat_inj.mp h))
  intro h
  rw [crc32Bytes_eq, crc32Bytes_eq, Nat.xor_comm, Nat.xor_comm 0xFFFFFFFF] at h
  exact hfed (xor_cancel h)

end Checksum

section RoundTrip

variable (serde : CheckpointSerde)

def CheckpointSerde.ReadsBack (cp : RunCheckpoint) : Prop :=
  ∃ bytes, serde.toVecPretty cp = .ok bytes ∧ serde.fromSlice bytes = .ok cp

def CheckpointSerde.WritesSchema (cp : RunCheckpoint) : Prop :=
  ∃ before after, ∀ schema,
    serde.toVec { cp with schema } = before ++ (asBytes (toString schema) ++ after)

def RoundTrips (disk : Disk) (path : FilePath) (cp : RunCheckpoint) (generation : ℕ) : Prop :=
  ∃ loaded, loadCheckpointFile serde (writeCheckpointFile serde disk path cp generation).2 path = .ok loaded ∧
    loaded.generation = generation ∧
    loaded.checkpoint =
      { cp with generation, schema := runCheckpointSchemaVersion, crc32 := loaded.checkpoint.crc32 }

variable {serde}

theorem computeCrc32_schema_ne {cp : RunCheckpoint} (hlayout : serde.WritesSchema { cp with crc32 := 0 })
    (hold : cp.schema ∈ supportedRunCheckpointSchemas) (hne : cp.schema ≠ runCheckpointSchemaVersion) :
    cp.computeCrc32 serde.toVec ≠
      { cp with schema := runCheckpointSchemaVersion }.computeCrc32 serde.toVec := by
  obtain ⟨before, after, htext⟩ := hlayout
  have hold' : serde.toVec { cp with crc32 := 0 } = before ++ (asBytes (toString cp.schema) ++ after) :=
    htext cp.schema
  have hnew : serde.toVec { cp with schema := runCheckpointSchemaVersion, crc32 := 0 } =
      before ++ (asBytes (toString runCheckpointSchemaVersion) ++ after) := htext _
  have hone : asBytes (toString 1) = [49] := by decide +kernel
  have htwo : asBytes (toString 2) = [50] := by decide +kernel
  have hthree : asBytes (toString runCheckpointSchemaVersion) = [51] := by decide +kernel
  simp only [RunCheckpoint.computeCrc32, hold', hnew, hthree]
  simp only [supportedRunCheckpointSchemas, List.mem_cons, List.not_mem_nil, or_false] at hold
  rcases hold with h | h | h
  · rw [h, hone]
    exact crc32Bytes_ne before after (by decide)
  · rw [h, htwo]
    exact crc32Bytes_ne before after (by decide)
  · exact absurd h hne

theorem write_then_read {cp : RunCheckpoint} {generation : ℕ} {bytes : List UInt8}
    (hsave : serde.toVecPretty (cp.stamped serde.toVec generation) = .ok bytes)
    (files : FilePath → Option (List UInt8)) (path : FilePath) :
    (writeCheckpointFile serde ⟨files, fun _ => false⟩ path cp generation).1 = .ok () ∧
    (writeCheckpointFile serde ⟨files, fun _ => false⟩ path cp generation).2.read path = some bytes := by
  simp [writeCheckpointFile, saveRunCheckpointJson, hsave, Disk.write, Disk.rename, Disk.read]

theorem upgraded_eq {cp : RunCheckpoint} (h : cp.schema ∈ supportedRunCheckpointSchemas) :
    cp.upgraded = { cp with schema := runCheckpointSchemaVersion } := by
  unfold RunCheckpoint.upgraded
  split_ifs with hlt
  · rfl
  · simp only [supportedRunCheckpointSchemas, List.mem_cons, List.not_mem_nil, or_false] at h
    have hsame : cp.schema = runCheckpointSchemaVersion := by
      rw [runCheckpointSchemaVersion] at hlt ⊢
      omega
    rw [← hsame]

theorem loadCheckpointFile_eq {disk : Disk} {path : FilePath} {bytes : List UInt8} {cp : RunCheckpoint}
    (hread : disk.read path = some bytes) (hparse : serde.fromSlice bytes = .ok cp)
    (hschema : cp.schema ∈ supportedRunCheckpointSchemas) :
    let up := { cp with schema := runCheckpointSchemaVersion }
    loadCheckpointFile serde disk path =
      if cp.crc32 ≠ 0 ∧ up.verifyCrc serde = false then
        .error (.crcMismatch cp.crc32 (up.computeCrc32 serde.toVec))
      else .ok ⟨up, cp.generation, false⟩ := by
  simp only [loadCheckpointFile, hread, loadRunCheckpointJson, hparse, upgraded_eq hschema]

theorem verifyCrc_upgraded_eq_false {cp : RunCheckpoint} {generation : ℕ}
    (hlayout : serde.WritesSchema { cp with generation, crc32 := 0 })
    (hschema : cp.schema ∈ supportedRunCheckpointSchemas) :
    { cp.stamped serde.toVec generation with schema := runCheckpointSchemaVersion }.verifyCrc serde = false ↔
      cp.schema ≠ runCheckpointSchemaVersion := by
  have hverify : { cp.stamped serde.toVec generation with schema := runCheckpointSchemaVersion }.verifyCrc serde =
      false ↔ { cp with generation }.computeCrc32 serde.toVec ≠
        { cp with generation, schema := runCheckpointSchemaVersion }.computeCrc32 serde.toVec :=
    beq_eq_false_iff_ne
  rw [hverify]
  constructor
  · intro hne hcurrent
    apply hne
    rw [← hcurrent]
  · exact @computeCrc32_schema_ne serde { cp with generation } hlayout hschema

end RoundTrip

theorem round_trips_iff (serde : CheckpointSerde) (files : FilePath → Option (List UInt8))
    (path : FilePath) (cp : RunCheckpoint) (generation : ℕ)
    (hschema : cp.schema ∈ supportedRunCheckpointSchemas)
    (hreads : serde.ReadsBack (cp.stamped serde.toVec generation))
    (hlayout : serde.WritesSchema { cp with generation, crc32 := 0 }) :
    (writeCheckpointFile serde ⟨files, fun _ => false⟩ path cp generation).1 = .ok () ∧
    (RoundTrips serde ⟨files, fun _ => false⟩ path cp generation ↔
      cp.schema = runCheckpointSchemaVersion ∨
        { cp with generation }.computeCrc32 serde.toVec = 0) := by
  obtain ⟨bytes, hsave, hparse⟩ := hreads
  obtain ⟨hwrite, hread⟩ := write_then_read hsave files path
  have hload := loadCheckpointFile_eq hread hparse hschema
  simp only [verifyCrc_upgraded_eq_false hlayout hschema] at hload
  have hcrc : (cp.stamped serde.toVec generation).crc32 = { cp with generation }.computeCrc32 serde.toVec := rfl
  refine ⟨hwrite, ?_⟩
  rw [RoundTrips, hload, hcrc]
  split_ifs with htorn
  · refine iff_of_false ?_ (by tauto)
    rintro ⟨loaded, hok, -⟩
    cases hok
  · refine iff_of_true ⟨_, rfl, rfl, rfl⟩ (by tauto)

section Samples

def sampleCheckpoint (schema : ℕ) : RunCheckpoint := ⟨schema, "c", 0, 1, .new, 0, 0⟩

def compactCoverage : String :=
  "\x7b\"ranges\":[],\"generation\":0,\"completed_seed_indices\":[],\"lease_ledger\":" ++
    "\x7b\"leases\":[],\"next_generation\":0,\"reclaimed_leases\":0,\"zombie_writes\":0\x7d\x7d"

def compactTail (cp : RunCheckpoint) : List UInt8 :=
  asBytes (",\"campaign_id\":\"c\",\"next_seed_index\":0,\"total_seeds\":1,\"ring_coverage\":" ++ compactCoverage ++
    ",\"generation\":" ++ toString cp.generation ++ ",\"crc32\":" ++ toString cp.crc32 ++ "\x7d")

def sampleVec (cp : RunCheckpoint) : List UInt8 :=
  asBytes "\x7b\"schema\":" ++ (asBytes (toString cp.schema) ++ compactTail cp)

def prettyCoverage : String :=
  "\x7b\n    \"ranges\": [],\n    \"generation\": 0,\n    \"completed_seed_indices\": [],\n" ++
    "    \"lease_ledger\": \x7b\n      \"leases\": [],\n      \"next_generation\": 0,\n" ++
    "      \"reclaimed_leases\": 0,\n      \"zombie_writes\": 0\n    \x7d\n  \x7d"

def sampleVecPretty (cp : RunCheckpoint) : List UInt8 :=
  asBytes ("\x7b\n  \"schema\": " ++ toString cp.schema ++ ",\n  \"campaign_id\": \"c\",\n" ++
    "  \"next_seed_index\": 0,\n  \"total_seeds\": 1,\n  \"ring_coverage\": " ++ prettyCoverage ++
    ",\n  \"generation\": " ++ toString cp.generation ++ ",\n  \"crc32\": " ++ toString cp.crc32 ++ "\n\x7d")

def sampleSerde (cp : RunCheckpoint) : CheckpointSerde where
  toVec := sampleVec
  toVecPretty written := .ok (sampleVecPretty written)
  fromSlice bytes := if bytes = sampleVecPretty (cp.stamped sampleVec 7) then .ok (cp.stamped sampleVec 7)
    else .error "expected value"

theorem sampleSerde_readsBack (cp : RunCheckpoint) :
    (sampleSerde cp).ReadsBack (cp.stamped (sampleSerde cp).toVec 7) := by
  simp [CheckpointSerde.ReadsBack, sampleSerde]

theorem sampleSerde_writesSchema (sample cp : RunCheckpoint) : (sampleSerde sample).WritesSchema cp :=
  ⟨asBytes "\x7b\"schema\":", compactTail cp, fun _ => rfl⟩

theorem sample_crc32_ne_zero : ((sampleCheckpoint 1).stamped sampleVec 7).crc32 ≠ 0 := by
  rw [crc32_stamped, crc32Bytes_eq, feedAll_eq_feedForced]
  decide +kernel

end Samples

theorem current_schema_round_trips :
    RoundTrips (sampleSerde (sampleCheckpoint 3)) ⟨fun _ => none, fun _ => false⟩ ⟨"run", "json"⟩
      (sampleCheckpoint 3) 7 :=
  (round_trips_iff (sampleSerde (sampleCheckpoint 3)) (fun _ => none) ⟨"run", "json"⟩ (sampleCheckpoint 3) 7
    (by decide) (sampleSerde_readsBack _) (sampleSerde_writesSchema _ _)).2.mpr (Or.inl rfl)

theorem first_schema_does_not_load :
    let serde := sampleSerde (sampleCheckpoint 1)
    let written := writeCheckpointFile serde ⟨fun _ => none, fun _ => false⟩ ⟨"run", "json"⟩ (sampleCheckpoint 1) 7
    written.1 = .ok () ∧
    ∃ recorded actual, loadCheckpointFile serde written.2 ⟨"run", "json"⟩ = .error (.crcMismatch recorded actual) := by
  intro serde written
  obtain ⟨bytes, hsave, hparse⟩ := sampleSerde_readsBack (sampleCheckpoint 1)
  obtain ⟨hwrite, hread⟩ := write_then_read hsave (fun _ => none) ⟨"run", "json"⟩
  have hold : (sampleCheckpoint 1).schema ∈ supportedRunCheckpointSchemas := by decide
  have hverify := (@verifyCrc_upgraded_eq_false serde _ 7 (sampleSerde_writesSchema _ _) hold).mpr (by decide)
  have hload := loadCheckpointFile_eq hread hparse hold
  exact ⟨hwrite, _, _, hload.trans (if_pos ⟨sample_crc32_ne_zero, hverify⟩)⟩

end CrashLab.Run
