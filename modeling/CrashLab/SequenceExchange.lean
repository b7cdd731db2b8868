import CrashLab.Sequence

namespace CrashLab.Sequence

open SignatureHash

def supportedSequenceSchemas : List ℕ := [1, sequenceSchemaVersion]

def SequenceVerdict.label : SequenceVerdict → String
  | matched => "matched"
  | diverged stepIndex _ _ => "diverged@" ++ toString stepIndex
  | incomplete expectedSteps observedSteps =>
    "incomplete:" ++ toString expectedSteps ++ "/" ++ toString observedSteps

structure StepScenario where
  index : ℕ
  invocation : String
  authMode : String
  expectation : StepExpectation
deriving DecidableEq, Repr

structure SequenceScenario where
  schema : ℕ
  seedId : ℕ
  steps : List StepScenario
  observations : List StepOutcome
  verdict : String
  divergenceStep : Option ℕ
deriving DecidableEq, Repr

def StepScenario.ofStep (step : SequenceStep) (index : ℕ) : StepScenario :=
  ⟨index, hexEncode step.invocation, step.authMode, step.expectation⟩

def SequenceScenario.new (seed : SequenceSeed) (observed : List StepOutcome) : SequenceScenario :=
  let verdict := evaluateSequence seed.steps observed
  { schema := seed.schema
    seedId := seed.id
    steps := seed.steps.zipIdx.map fun row => .ofStep row.1 row.2
    observations := observed
    verdict := verdict.label
    divergenceStep := verdict.divergenceStep }

structure SequenceSerde where
  seedFromSlice : List UInt8 → Except String SequenceSeed
  scenarioToStringPretty : SequenceScenario → Except String String
  scenarioFromSlice : List UInt8 → Except String SequenceScenario

section Documents

variable (serde : SequenceSerde)

def SequenceSeed.fromJson (bytes : List UInt8) : Except SequenceError SequenceSeed :=
  match serde.seedFromSlice bytes with
  | .error message => .error (.json message)
  | .ok seed =>
    if seed.schema ∉ supportedSequenceSchemas then .error (.unsupportedSchema seed.schema)
    else if seed.steps.isEmpty then .error .noSteps
    else .ok seed

def exportSequenceJson (seed : SequenceSeed) (observed : List StepOutcome) : Except String String :=
  serde.scenarioToStringPretty (.new seed observed)

-- `hex::decode`
variable (hexDecode : String → Option (List UInt8))

def StepScenario.toStep (row : StepScenario) : SequenceStep :=
  -- `unwrap_or_default`
  ⟨(hexDecode row.invocation).getD [], row.authMode, row.expectation⟩

def importSequenceJson (bytes : List UInt8) : Except SequenceError SequenceSeed :=
  match serde.scenarioFromSlice bytes with
  | .error message => .error (.json message)
  | .ok scenario =>
    let seed : SequenceSeed :=
      { schema := if scenario.schema ∈ supportedSequenceSchemas then scenario.schema else scenario.schema
        id := scenario.seedId
        steps := scenario.steps.map (·.toStep hexDecode) }
    if seed.steps.isEmpty then .error .noSteps else .ok seed

end Documents

section Exchange

variable {serde : SequenceSerde} {hexDecode : String → Option (List UInt8)}

def SequenceSerde.ReadsBack (serde : SequenceSerde) (scenario : SequenceScenario) : Prop :=
  ∃ text, serde.scenarioToStringPretty scenario = .ok text ∧
    serde.scenarioFromSlice (asBytes text) = .ok scenario

def SequenceScenario.WellFormed (hexDecode : String → Option (List UInt8)) (scenario : SequenceScenario) :
    Prop :=
  scenario.schema ∈ supportedSequenceSchemas ∧ ∀ row ∈ scenario.steps, hexDecode row.invocation ≠ none

theorem importSequenceJson_eq {bytes : List UInt8} {scenario : SequenceScenario}
    (hparse : serde.scenarioFromSlice bytes = .ok scenario) :
    importSequenceJson serde hexDecode bytes =
      if scenario.steps = [] then .error .noSteps
      else .ok ⟨scenario.schema, scenario.seedId, scenario.steps.map (·.toStep hexDecode)⟩ := by
  simp only [importSequenceJson, hparse, ite_self, List.isEmpty_iff, List.map_eq_nil_iff]

theorem steps_of_rows (hhex : ∀ bytes, hexDecode (hexEncode bytes) = some bytes)
    (seed : SequenceSeed) (observed : List StepOutcome) :
    (SequenceScenario.new seed observed).steps.map (·.toStep hexDecode) = seed.steps := by
  have hrow : ∀ row : SequenceStep × ℕ,
      (StepScenario.ofStep row.1 row.2).toStep hexDecode = row.1 := by
    intro row
    simp [StepScenario.ofStep, StepScenario.toStep, hhex]
  simp only [SequenceScenario.new, List.map_map, Function.comp_def, hrow]
  exact List.zipIdx_map_fst 0 seed.steps

theorem import_of_export (hhex : ∀ bytes, hexDecode (hexEncode bytes) = some bytes)
    {seed : SequenceSeed} (hsteps : seed.steps ≠ []) {observed : List StepOutcome} {text : String}
    (hparse : serde.scenarioFromSlice (asBytes text) = .ok (.new seed observed)) :
    importSequenceJson serde hexDecode (asBytes text) = .ok seed := by
  have hrows := steps_of_rows hhex seed observed
  have hne : (SequenceScenario.new seed observed).steps ≠ [] := by
    intro hnil
    rw [hnil] at hrows
    exact hsteps hrows.symm
  rw [importSequenceJson_eq hparse, if_neg hne, hrows]
  rfl

def RejectsMalformed (serde : SequenceSerde) (hexDecode : String → Option (List UInt8))
    (bytes : List UInt8) : Prop :=
  ∀ scenario, serde.scenarioFromSlice bytes = .ok scenario → ¬ scenario.WellFormed hexDecode →
    ∃ e, importSequenceJson serde hexDecode bytes = .error e

theorem rejectsMalformed_iff (bytes : List UInt8) :
    RejectsMalformed serde hexDecode bytes ↔
      ∀ scenario, serde.scenarioFromSlice bytes = .ok scenario →
        scenario.steps = [] ∨ scenario.WellFormed hexDecode := by
  constructor
  · intro h scenario hparse
    by_contra hnot
    obtain ⟨hsteps, hmalformed⟩ := not_or.mp hnot
    obtain ⟨e, herror⟩ := h scenario hparse hmalformed
    rw [importSequenceJson_eq hparse, if_neg hsteps] at herror
    cases herror
  · intro h scenario hparse hmalformed
    have hsteps := (h scenario hparse).resolve_right hmalformed
    exact ⟨.noSteps, by rw [importSequenceJson_eq hparse, if_pos hsteps]⟩

end Exchange

section Samples

def hexNibble (c : Char) : Option ℕ :=
  if '0' ≤ c ∧ c ≤ '9' then some (c.toNat - '0'.toNat)
  else if 'a' ≤ c ∧ c ≤ 'f' then some (c.toNat - 'a'.toNat + 10)
  else if 'A' ≤ c ∧ c ≤ 'F' then some (c.toNat - 'A'.toNat + 10)
  else none

def hexPairs : List Char → Option (List UInt8)
  | [] => some []
  | [_] => none
  | high :: low :: rest => do
    let h ← hexNibble high
    let l ← hexNibble low
    return UInt8.ofNat (16 * h + l) :: (← hexPairs rest)

theorem hexNibble_hexDigit {n : ℕ} (h : n < 16) : hexNibble (hexDigit n) = some n := by
  interval_cases n <;> rfl

theorem hexPairs_of_bytes (bytes : List UInt8) :
    hexPairs (bytes.flatMap fun b => [hexDigit (b.toNat / 16), hexDigit (b.toNat % 16)]) = some bytes := by
  induction bytes with
  | nil => rfl
  | cons b bytes ih =>
    have hb := b.toNat_lt
    have hbyte : UInt8.ofNat (16 * (b.toNat / 16) + b.toNat % 16) = b := by
      rw [Nat.div_add_mod]
      exact UInt8.ofNat_toNat
    have hhigh := @hexNibble_hexDigit (b.toNat / 16) (by omega)
    have hlow := @hexNibble_hexDigit (b.toNat % 16) (by omega)
    rw [List.flatMap_cons, List.cons_append, List.cons_append, List.nil_append, hexPairs, hhigh, hlow, ih]
    exact congrArg (fun first => some (first :: bytes)) hbyte

def sampleHexDecode (s : String) : Option (List UInt8) := hexPairs s.toList

theorem sampleHexDecode_hexEncode (bytes : List UInt8) : sampleHexDecode (hexEncode bytes) = some bytes := by
  rw [sampleHexDecode, hexEncode, String.toList_ofList]
  exact hexPairs_of_bytes bytes

def sampleSerde (text : String) (scenario : SequenceScenario) : SequenceSerde where
  seedFromSlice _ := .error "missing field id"
  scenarioToStringPretty written := if written = scenario then .ok text else .error "not the sample"
  scenarioFromSlice bytes := if bytes = asBytes text then .ok scenario else .error "expected value"

theorem sampleSerde_readsBack (text : String) (scenario : SequenceScenario) :
    (sampleSerde text scenario).ReadsBack scenario := ⟨text, if_pos rfl, if_pos rfl⟩

theorem sampleSerde_parses (text : String) (scenario : SequenceScenario) :
    (sampleSerde text scenario).scenarioFromSlice (asBytes text) = .ok scenario := if_pos rfl

def sampleChain : SequenceSeed := ⟨2, 42, [⟨[10], "enforce", .success⟩]⟩

def sampleChainText : String :=
  "\x7b\n  \"schema\": 2,\n  \"seed_id\": 42,\n  \"steps\": [\n    \x7b\n      \"index\": 0,\n" ++
    "      \"invocation\": \"0a\",\n      \"auth_mode\": \"enforce\",\n      \"expectation\": \x7b\n" ++
    "        \"kind\": \"success\"\n      \x7d\n    \x7d\n  ],\n  \"observations\": [\n    \x7b\n" ++
    "      \"kind\": \"success\"\n    \x7d\n  ],\n  \"verdict\": \"matched\",\n  \"divergence_step\": null\n\x7d"

def badHexText : String :=
  "\x7b\"schema\":99,\"seed_id\":7,\"steps\":[\x7b\"index\":0,\"invocation\":\"zz\",\"auth_mode\":\"enforce\"," ++
    "\"expectation\":\x7b\"kind\":\"any\"\x7d\x7d],\"observations\":[],\"verdict\":\"incomplete:1/0\"," ++
    "\"divergence_step\":null\x7d"

def badHexScenario : SequenceScenario := ⟨99, 7, [⟨0, "zz", "enforce", .any⟩], [], "incomplete:1/0", none⟩

end Samples

theorem sequence_exchange (serde : SequenceSerde) (hexDecode : String → Option (List UInt8))
    (hhex : ∀ bytes, hexDecode (hexEncode bytes) = some bytes) :
    (∀ (seed : SequenceSeed) (observed : List StepOutcome), seed.steps ≠ [] →
      serde.ReadsBack (.new seed observed) →
      ∃ text, exportSequenceJson serde seed observed = .ok text ∧
        importSequenceJson serde hexDecode (asBytes text) = .ok seed) ∧
    ∀ bytes, RejectsMalformed serde hexDecode bytes ↔
      ∀ scenario, serde.scenarioFromSlice bytes = .ok scenario →
        scenario.steps = [] ∨ scenario.WellFormed hexDecode := by
  refine ⟨fun seed observed hsteps ⟨text, hwrite, hparse⟩ => ?_, rejectsMalformed_iff⟩
  exact ⟨text, hwrite, import_of_export hhex hsteps hparse⟩

theorem sample_chain_exchanged :
    let serde := sampleSerde sampleChainText (.new sampleChain [.success])
    ∃ text, exportSequenceJson serde sampleChain [.success] = .ok text ∧
      importSequenceJson serde sampleHexDecode (asBytes text) = .ok sampleChain :=
  (sequence_exchange _ sampleHexDecode sampleHexDecode_hexEncode).1 sampleChain [.success]
    (by decide) (sampleSerde_readsBack _ _)

theorem malformed_document_imported :
    let serde := sampleSerde badHexText badHexScenario
    serde.scenarioFromSlice (asBytes badHexText) = .ok badHexScenario ∧
      ¬ badHexScenario.WellFormed sampleHexDecode ∧
      importSequenceJson serde sampleHexDecode (asBytes badHexText) =
        .ok ⟨99, 7, [⟨[], "enforce", .any⟩]⟩ := by
  intro serde
  have hparse := sampleSerde_parses badHexText badHexScenario
  refine ⟨hparse, fun h => absurd h.1 (by decide), ?_⟩
  rw [importSequenceJson_eq hparse]
  rfl

end CrashLab.Sequence
