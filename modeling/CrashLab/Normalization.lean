import CrashLab.Taxonomy

namespace CrashLab.Cluster

open Taxonomy

structure NormalizationRules where
  rulesVersion : ℕ
  taxonomyVersion : ℕ
  maskAddresses : Bool
  maskAmounts : Bool
  maskHashes : Bool
  amountMinDigits : ℕ
deriving DecidableEq, Repr

structure NormalizedSignature where
  text : String
  rulesVersion : ℕ
deriving DecidableEq, Repr

inductive Pattern where
  | hash
  | address
  | bareAmount
  | typedAmount
deriving DecidableEq, Repr

inductive Piece where
  | between (text : String)
  | found (captures : List String)
deriving DecidableEq, Repr

/-- The regular-expression engine, and the decimal magnitude of a string of digits read as a float. -/
structure Externals where
  pieces : Pattern → String → List Piece
  magnitudeBucket : String → ℕ

def replaceAll {σ : Type} (replacement : σ → List String → σ × String) : σ → List Piece → String
  | _, [] => ""
  | s, .between text :: rest => text ++ replaceAll replacement s rest
  | s, .found captures :: rest =>
    (replacement s captures).2 ++ replaceAll replacement (replacement s captures).1 rest

def assignOrdinal (label : String) (seen : List String) (captures : List String) :
    List String × String :=
  let value := captures.headD ""
  let ordinal := seen.idxOf value
  (if ordinal < seen.length then seen else seen ++ [value], s!"{label}@{ordinal}")

def maskOrdinals (engine : Externals) (input : String) (pattern : Pattern) (label : String) : String :=
  replaceAll (assignOrdinal label) [] (engine.pieces pattern input)

def bucketDigits (engine : Externals) (label digits : String) : String :=
  s!"{label}:1e{engine.magnitudeBucket digits}-magnitude-bucket"

def maskTypedAmounts (engine : Externals) (input : String) : String :=
  replaceAll (fun _ captures => ((), bucketDigits engine (captures.getD 1 "") (captures.getD 2 ""))) ()
    (engine.pieces .typedAmount input)

def maskBareAmounts (engine : Externals) (minDigits : ℕ) (input : String) : String :=
  replaceAll
    (fun _ captures =>
      let digits := captures.headD ""
      ((), if minDigits ≤ digits.utf8ByteSize then bucketDigits engine "i128" digits else digits))
    () (engine.pieces .bareAmount input)

def normalizeSignature (engine : Externals) (raw : String) (rules : NormalizationRules) :
    NormalizedSignature :=
  let text := raw
  let text := if rules.maskHashes then maskOrdinals engine text .hash "Hash" else text
  let text := if rules.maskAddresses then maskOrdinals engine text .address "Address" else text
  let text :=
    if rules.maskAmounts then
      maskBareAmounts engine rules.amountMinDigits (maskTypedAmounts engine text)
    else text
  { text, rulesVersion := rules.rulesVersion }

end CrashLab.Cluster
