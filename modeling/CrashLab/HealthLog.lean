import CrashLab.Redact
import CrashLab.Texts

namespace CrashLab.HealthLog

open Redact Texts

def supportedHealthSnapshotSchemas : List ℕ := [3, 2, 1]

def maxCorruptHealthSnapshotLines : ℕ := 3

/-- What a snapshot measures is looked at by `serde_json` only. -/
structure HealthSnapshot (Measures : Type) where
  schemaVersion : ℕ
  sequence : ℕ
  measures : Measures
deriving DecidableEq, Repr

inductive HealthSnapshotError where
  | io
  | json (detail : String)
  | unsupportedSchema (found : ℕ) (supported : List ℕ)
  | corruptLog (corruptLines threshold : ℕ)
deriving DecidableEq, Repr

/-- `serde_json`, and the regular expressions of the redaction. -/
structure Serde (Measures : Type) where
  toValue : HealthSnapshot Measures → Except String JsonValue
  valueToString : JsonValue → Except String String
  valueFromStr : String → Except String JsonValue
  fromValue : JsonValue → Except String (HealthSnapshot Measures)
  redactText : String → String

variable {Measures : Type} (serde : Serde Measures)

def toJsonLine (snapshot : HealthSnapshot Measures) : Except HealthSnapshotError String := do
  let value ← (serde.toValue snapshot).mapError .json
  let sanitized := (redactJsonValue serde.redactText value).1
  let line ← (serde.valueToString sanitized).mapError .json
  return line.push '\n'

def fromJsonLine (line : String) : Except HealthSnapshotError (HealthSnapshot Measures) := do
  let value ← (serde.valueFromStr line).mapError .json
  let redacted := (redactJsonValue serde.redactText value).1
  let snapshot ← (serde.fromValue redacted).mapError .json
  if ¬supportedHealthSnapshotSchemas.contains snapshot.schemaVersion then
    throw (.unsupportedSchema snapshot.schemaVersion supportedHealthSnapshotSchemas)
  return snapshot

/-- The bytes of the log file after an append that went through; `none` is a file that does not exist yet. -/
def appendHealthSnapshot (file : Option ByteArray) (snapshot : HealthSnapshot Measures) :
    Except HealthSnapshotError ByteArray := do
  let line ← toJsonLine serde snapshot
  return file.getD ByteArray.empty ++ line.toByteArray

structure HealthSnapshotLog (Measures : Type) where
  snapshots : List (HealthSnapshot Measures)
  degraded : Bool
  truncatedTail : Bool
  corruptLines : ℕ

def readLines (snapshots : List (HealthSnapshot Measures)) (corruptLines : ℕ) :
    List (List Char) → Except HealthSnapshotError (List (HealthSnapshot Measures) × ℕ)
  | [] => .ok (snapshots, corruptLines)
  | line :: rest =>
    match fromJsonLine serde (String.ofList line) with
    | .ok snapshot => readLines (snapshots ++ [snapshot]) corruptLines rest
    | .error _ =>
      if maxCorruptHealthSnapshotLines < corruptLines + 1 then
        .error (.corruptLog (corruptLines + 1) maxCorruptHealthSnapshotLines)
      else readLines snapshots (corruptLines + 1) rest

def isBlank (line : List Char) : Bool := trim line = []

def readHealthSnapshotLog (file : Option ByteArray) :
    Except HealthSnapshotError (HealthSnapshotLog Measures) :=
  match file with
  | none => .ok ⟨[], false, false, 0⟩
  | some bytes =>
    match String.fromUTF8? bytes with
    | none => .error .io
    | some contents => do
      let text := contents.toList
      let truncatedTail : Bool := text ≠ [] ∧ text.getLast? ≠ some '\n'
      let whole := if truncatedTail then (complete text).dropLast else text
      let (snapshots, corruptLines) ← readLines serde [] 0 ((lines whole).filter fun line => !isBlank line)
      return ⟨snapshots, truncatedTail || decide (0 < corruptLines), truncatedTail, corruptLines⟩

def readLatestHealthSnapshot (file : Option ByteArray) :
    Except HealthSnapshotError (Option (HealthSnapshot Measures)) := do
  let log ← readHealthSnapshotLog serde file
  return log.snapshots.getLast?

def hasSequence (sequence : ℕ) (line : List Char) : Bool :=
  match fromJsonLine serde (String.ofList line) with
  | .ok snapshot => snapshot.sequence = sequence
  | .error _ => false

def readLatestHealthSnapshotLine (file : Option ByteArray) : Except HealthSnapshotError (Option String) :=
  match file with
  | none => .ok none
  | some bytes =>
    match String.fromUTF8? bytes with
    | none => .error .io
    | some contents => do
      let log ← readHealthSnapshotLog serde file
      match log.snapshots.getLast? with
      | none => return none
      | some latest =>
        let found := (lines contents.toList).reverse.filter fun line => !isBlank line
        -- the torn line is among them
        return (found.find? (hasSequence serde latest.sequence)).map fun line => serde.redactText (String.ofList line)

end CrashLab.HealthLog
