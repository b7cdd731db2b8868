import CrashLab.FixtureSanitize
import CrashLab.Redact
import CrashLab.Taxonomy

namespace CrashLab.BundlePersist

open FixtureSanitize Redact SignatureHash Taxonomy

def crashSignatureFromSeed (seed : CaseSeed) : CrashSignature where
  category := (classifyFailure seed).asStr
  digest := seed.payload.foldl (fun acc b => (acc * 1099511628211 % 2 ^ 64 + b.toNat) % 2 ^ 64) seed.id
  signatureHash := hashCategoryPayload (classifyFailure seed).asStr seed.payload

def engineVersion : String := "0.1.0"

def caseBundleSchemaVersion : ℕ := 2

def supportedBundleSchemas : List ℕ := [1, caseBundleSchemaVersion]

def maxBundleJsonBytes : ℕ := 64 * 1024 * 1024

inductive BundlePersistError where
  | json (detail : String)
  | unsupportedSchema (found : ℕ)
  | sizeLimit (limit : ℕ)
deriving DecidableEq, Repr

section Documents

variable {Environment Envelope : Type}

/-- Nothing but `serde_json` looks into the captured environment and the captured envelopes. -/
structure CaseBundle (Environment Envelope : Type) where
  seed : CaseSeed
  signature : CrashSignature
  environment : Option Environment
  failurePayload : List UInt8
  rpcEnvelope : Option Envelope
  engineVersion : String

structure CaseBundleDocument (Environment Envelope : Type) where
  schema : ℕ
  seed : CaseSeed
  signature : CrashSignature
  environment : Option Environment
  failurePayload : List UInt8
  rpcEnvelope : Option Envelope
  engineVersion : String

def CaseBundleDocument.fromBundle (bundle : CaseBundle Environment Envelope) :
    CaseBundleDocument Environment Envelope where
  schema := caseBundleSchemaVersion
  seed := bundle.seed
  signature := bundle.signature
  environment := bundle.environment
  failurePayload := bundle.failurePayload
  rpcEnvelope := bundle.rpcEnvelope
  engineVersion := if bundle.engineVersion = "" then BundlePersist.engineVersion else bundle.engineVersion

def CaseBundleDocument.intoBundle (doc : CaseBundleDocument Environment Envelope) :
    Except BundlePersistError (CaseBundle Environment Envelope) :=
  if ¬supportedBundleSchemas.contains doc.schema then .error (.unsupportedSchema doc.schema)
  else
    .ok
      { seed := doc.seed
        signature := doc.signature
        environment := doc.environment
        failurePayload := doc.failurePayload
        rpcEnvelope := doc.rpcEnvelope
        engineVersion := if doc.engineVersion = "" then "unknown" else doc.engineVersion }

/-- `serde_json`, and the regular expressions of the redaction. -/
structure Serde (Environment Envelope : Type) where
  toVecPretty : CaseBundleDocument Environment Envelope → Except String (List UInt8)
  fromSlice : List UInt8 → Except String (CaseBundleDocument Environment Envelope)
  toValue : CaseBundleDocument Environment Envelope → Except String JsonValue
  valueToVecPretty : JsonValue → Except String (List UInt8)
  valueToVec : JsonValue → Except String (List UInt8)
  valueFromStr : String → Except String JsonValue
  redactText : String → String

variable (serde : Serde Environment Envelope)

def serializeBounded (json : Except String (List UInt8)) : Except BundlePersistError (List UInt8) := do
  let bytes ← json.mapError .json
  if maxBundleJsonBytes < bytes.length then throw (.sizeLimit maxBundleJsonBytes)
  return bytes

def saveCaseBundleJson (bundle : CaseBundle Environment Envelope) : Except BundlePersistError (List UInt8) :=
  serializeBounded (serde.toVecPretty (.fromBundle bundle))

def loadCaseBundleJson (bytes : List UInt8) : Except BundlePersistError (CaseBundle Environment Envelope) := do
  if maxBundleJsonBytes < bytes.length then throw (.sizeLimit maxBundleJsonBytes)
  let doc ← (serde.fromSlice bytes).mapError .json
  doc.intoBundle

end Documents

section Sanitizing

mutual

def stripSensitiveKeysJson (context : SanitizationContext) (report : SanitizationReport) :
    JsonValue → JsonValue × SanitizationReport
  | .object entries =>
    let (entries, report) := stripSensitiveEntries context report entries
    (.object entries, report)
  | .array items =>
    let (items, report) := stripSensitiveItems context report items
    (.array items, report)
  | .null => (.null, report)
  | .bool b => (.bool b, report)
  | .number text => (.number text, report)
  | .string text => (.string text, report)

def stripSensitiveEntries (context : SanitizationContext) (report : SanitizationReport) :
    List (String × JsonValue) → List (String × JsonValue) × SanitizationReport
  | [] => ([], report)
  | (key, value) :: entries =>
    let (value, report) :=
      match context.rules.find? fun rule => eqIgnoreAsciiCase (asBytes key) rule.pattern with
      | some rule => (JsonValue.string "[REDACTED]", report.record rule.category)
      | none => stripSensitiveKeysJson context report value
    let (entries, report) := stripSensitiveEntries context report entries
    ((key, value) :: entries, report)

def stripSensitiveItems (context : SanitizationContext) (report : SanitizationReport) :
    List JsonValue → List JsonValue × SanitizationReport
  | [] => ([], report)
  | item :: items =>
    let (item, report) := stripSensitiveKeysJson context report item
    let (items, report) := stripSensitiveItems context report items
    (item :: items, report)

end

def mergeReports (into other : SanitizationReport) : SanitizationReport where
  redactionCount := into.redactionCount + other.redactionCount
  redactionCategories := other.redactionCategories.foldl
    (fun categories category count => categories.insert category (categories.getD category 0 + count))
    into.redactionCategories

variable {Environment Envelope : Type} (serde : Serde Environment Envelope)

/-- `none` where the pass over the bytes does not end. -/
def sanitizeJsonPayload (payload : List UInt8) (context : SanitizationContext) :
    Option (List UInt8 × SanitizationReport) :=
  match String.fromUTF8? ⟨payload.toArray⟩ with
  | none => sanitizePayloadWithContext payload context
  | some text =>
    match serde.valueFromStr text with
    | .error _ => sanitizePayloadWithContext payload context
    | .ok value =>
      let (value, report) := stripSensitiveKeysJson context .empty value
      some ((serde.valueToVec value).toOption.getD payload, report)

def sanitizeBundleWithContext (bundle : CaseBundle Environment Envelope) (context : SanitizationContext) :
    Option (CaseBundle Environment Envelope × SanitizationReport) := do
  let (seed, report) ← sanitizeSeedWithContext bundle.seed context
  let (failurePayload, report) ←
    if bundle.failurePayload = [] then pure (bundle.failurePayload, report)
    else do
      let (sanitized, payloadReport) ← sanitizeJsonPayload serde bundle.failurePayload context
      pure (sanitized, mergeReports report payloadReport)
  return (
    { seed
      signature := crashSignatureFromSeed seed
      environment := bundle.environment
      failurePayload
      rpcEnvelope := none
      engineVersion }, report)

def sanitizeBundleForSharing (bundle : CaseBundle Environment Envelope) :
    Option (CaseBundle Environment Envelope) :=
  (sanitizeBundleWithContext serde bundle .new).map Prod.fst

def sanitizeBundleDocumentForSharing (bundle : CaseBundle Environment Envelope) :
    Option (CaseBundleDocument Environment Envelope) :=
  (sanitizeBundleForSharing serde bundle).map fun sanitized =>
    { schema := caseBundleSchemaVersion
      seed := sanitized.seed
      signature := sanitized.signature
      environment := sanitized.environment
      failurePayload := sanitized.failurePayload
      rpcEnvelope := none
      engineVersion }

/-- `value.get_mut("environment")`, with what it points to replaced. -/
def redactEnvironment (redactText : String → String) : JsonValue → JsonValue
  | .object entries => .object <| entries.map fun (key, value) =>
      (key, if key = "environment" then (redactJsonValue redactText value).1 else value)
  | value => value

def saveSanitizedCaseBundleJson (bundle : CaseBundle Environment Envelope) :
    Option (Except BundlePersistError (List UInt8)) :=
  (sanitizeBundleDocumentForSharing serde bundle).map fun doc =>
    serializeBounded do
      let value ← serde.toValue doc
      serde.valueToVecPretty (redactEnvironment serde.redactText value)

end Sanitizing

end CrashLab.BundlePersist
