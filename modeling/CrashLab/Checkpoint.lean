import CrashLab.RingCoverage
import CrashLab.Seeds

namespace CrashLab.Run

open MachineInts WorkerRing

def runCheckpointSchemaVersion : ℕ := 3

def supportedRunCheckpointSchemas : List ℕ := [1, 2, 3]

structure RunCheckpoint where
  schema : ℕ
  campaignId : String
  nextSeedIndex : ℕ
  totalSeeds : ℕ
  ringCoverage : RingCoverage
  generation : ℕ
  crc32 : ℕ
deriving DecidableEq

inductive CheckpointError where
  | campaignMismatch (recorded actual : String)
  | indexPastEnd (nextSeedIndex seedsLen : ℕ)
  | totalMismatch (recorded actual : ℕ)
  | unsupportedSchema (schema : ℕ)
  | generationMismatch (recorded committed : ℕ)
  | crcMismatch (recorded actual : ℕ)
deriving DecidableEq, Repr

def crc32Bit (crc : ℕ) : ℕ := if crc &&& 1 ≠ 0 then (crc >>> 1) ^^^ 0xEDB88320 else crc >>> 1

def crc32Bytes (data : List UInt8) : ℕ :=
  0xFFFFFFFF ^^^ data.foldl (fun crc byte => crc32Bit^[8] (crc ^^^ byte.toNat)) 0xFFFFFFFF

namespace RunCheckpoint

/-- `toVec` is the JSON serializer. -/
def computeCrc32 (toVec : RunCheckpoint → List UInt8) (cp : RunCheckpoint) : ℕ :=
  crc32Bytes (toVec { cp with crc32 := 0 })

def newRun (toVec : RunCheckpoint → List UInt8) (campaignId : String) (seeds : List CaseSeed) :
    RunCheckpoint :=
  let cp : RunCheckpoint :=
    { schema := runCheckpointSchemaVersion
      campaignId := campaignId
      nextSeedIndex := 0
      totalSeeds := seeds.length
      ringCoverage := .new
      generation := 1
      crc32 := 0 }
  { cp with crc32 := computeCrc32 toVec cp }

def validateRun (cp : RunCheckpoint) (campaignId : String) (totalSeeds : ℕ) :
    Except CheckpointError Unit :=
  if cp.schema ∉ supportedRunCheckpointSchemas then .error (.unsupportedSchema cp.schema)
  else if cp.campaignId ≠ campaignId then .error (.campaignMismatch cp.campaignId campaignId)
  else if cp.totalSeeds ≠ totalSeeds then .error (.totalMismatch cp.totalSeeds totalSeeds)
  else if cp.nextSeedIndex > totalSeeds then .error (.indexPastEnd cp.nextSeedIndex totalSeeds)
  else .ok ()

def isComplete (cp : RunCheckpoint) (seeds : List CaseSeed) : Bool :=
  cp.nextSeedIndex ≥ seeds.length

theorem validateRun_ok_iff (cp : RunCheckpoint) (campaignId : String) (totalSeeds : ℕ) :
    cp.validateRun campaignId totalSeeds = .ok () ↔
      cp.schema ∈ supportedRunCheckpointSchemas ∧ cp.campaignId = campaignId ∧
        cp.totalSeeds = totalSeeds ∧ cp.nextSeedIndex ≤ totalSeeds := by
  unfold validateRun
  split_ifs <;> simp_all

end RunCheckpoint

end CrashLab.Run
