import CrashLab.BundlePersist
import CrashLab.OrderedMaps
import CrashLab.Texts

namespace CrashLab.RegressionGrouping

open BundlePersist OrderedMaps Taxonomy Texts
open Std (LawfulEqOrd TransCmp TransOrd)

variable {Environment Envelope : Type}

section Keys

/-- `FailureClass::ALL`. -/
def allClasses : List FailureClass :=
  [.auth, .budget, .state, .xdr, .invalidEnumTag, .emptyInput, .oversizedInput, .unknown, .timeout, .internalPanic,
    .rpcTransport, .rpcRateLimited, .rpcSequence, .rpcResource, .rpcContract, .rpcNotFound, .budgetExhaustedCpu,
    .budgetExhaustedMem, .hostError, .trapContract]

structure RegressionGroupKey where
  domain : FailureClass
  failureMode : String
deriving DecidableEq, Repr

def RegressionGroupKey.position (key : RegressionGroupKey) : ℕ := (allClasses.idxOf? key.domain).getD (2 ^ 64 - 1)

instance : Ord RegressionGroupKey := ⟨compareLex (compareOn (·.position)) (compareOn (·.failureMode))⟩

instance : TransOrd RegressionGroupKey := inferInstanceAs (TransCmp (compareLex _ _))

theorem RegressionGroupKey.position_eq (key : RegressionGroupKey) : key.position = key.domain.ctorIdx := by
  obtain ⟨domain, mode⟩ := key
  cases domain <;> rfl

instance : LawfulEqOrd RegressionGroupKey where
  eq_of_compare {a b} h := by
    have hlex : compareLex (compareOn RegressionGroupKey.position) (compareOn RegressionGroupKey.failureMode) a b = .eq := h
    rw [compareLex_eq_eq] at hlex
    have hdomain : compare a.domain b.domain = .eq := by
      have hposition : compare a.position b.position = .eq := hlex.1
      rwa [a.position_eq, b.position_eq] at hposition
    have hmode : compare a.failureMode b.failureMode = .eq := hlex.2
    rw [LawfulEqOrd.compare_eq_iff_eq] at hdomain hmode
    cases a
    cases b
    exact congrArg₂ RegressionGroupKey.mk hdomain hmode

def regressionGroupKey (bundle : CaseBundle Environment Envelope) : RegressionGroupKey where
  domain := classifyFailure bundle.seed
  failureMode := bundle.signature.category

def groupBundlesByRegressionGroup (bundles : List (CaseBundle Environment Envelope)) :
    Std.ExtTreeMap RegressionGroupKey (List (CaseBundle Environment Envelope)) compare :=
  groupBy compare regressionGroupKey bundles

end Keys

section Identifiers

def trimUnderscores (text : List Char) : List Char := (text.dropWhile (· = '_')).rdropWhile (· = '_')

def sanitizeIdentSegment (label : List Char) : List Char :=
  let s := trimUnderscores (label.map fun c => if c.isAlphanum then c else if c = '-' ∨ c = '.' then '_' else '_')
  let s := if s = [] then "unknown".toList else s
  if s.head?.any Char.isDigit then '_' :: s else s

def regressionGroupModuleIdent (key : RegressionGroupKey) : List Char :=
  "regression_".toList ++ sanitizeIdentSegment key.domain.asStr.toList ++ ['_'] ++
    sanitizeIdentSegment key.failureMode.toList

def defaultTestName (bundle : CaseBundle Environment Envelope) : List Char :=
  "regression_seed_".toList ++ Nat.toDigits 10 bundle.seed.id

def isValidRustIdent : List Char → Bool
  | [] => false
  | first :: rest => (first = '_' || first.isAlpha) && rest.all fun c => c = '_' || c.isAlphanum

end Identifiers

section Suites

/-- A character as `{:?}` writes it in a string; the tables of the formatter say what stands unescaped. -/
def debugChar (printable : Char → Bool) (c : Char) : List Char :=
  if c = '\x00' then "\\0".toList
  else if c = '\t' then "\\t".toList
  else if c = '\r' then "\\r".toList
  else if c = '\n' then "\\n".toList
  else if c = '"' then "\\\"".toList
  else if c = '\\' then "\\\\".toList
  else if printable c then [c]
  else "\\u\x7b".toList ++ Nat.toDigits 16 c.toNat ++ "\x7d".toList

def debugText (printable : Char → Bool) (text : List Char) : List Char :=
  ['"'] ++ text.flatMap (debugChar printable) ++ ['"']

def byteLiteral (b : UInt8) : List Char := ['0', 'x', (b.toNat / 16).digitChar, (b.toNat % 16).digitChar]

def payloadLiteral (payload : List UInt8) : List Char := List.intercalate ", ".toList (payload.map byteLiteral)

def testBody (printable : Char → Bool) (bundle : CaseBundle Environment Envelope) : List (List Char) :=
  let category := debugText printable bundle.signature.category.toList
  let digest := Nat.toDigits 10 bundle.signature.digest
  let signatureHash := Nat.toDigits 10 bundle.signature.signatureHash
  ["    use crashlab_core::\x7breplay_seed_bundle, CaseBundle, CaseSeed, CrashSignature\x7d;".toList,
    "".toList,
    "    let bundle = CaseBundle \x7b".toList,
    "        seed: CaseSeed \x7b".toList,
    "            id: ".toList ++ Nat.toDigits 10 bundle.seed.id ++ ",".toList,
    "            payload: vec![".toList ++ payloadLiteral bundle.seed.payload ++ "],".toList,
    "        \x7d,".toList,
    "        signature: CrashSignature \x7b".toList,
    "            category: ".toList ++ category ++ ".to_string(),".toList,
    "            digest: ".toList ++ digest ++ ",".toList,
    "            signature_hash: ".toList ++ signatureHash ++ ",".toList,
    "        \x7d,".toList,
    "        environment: None,".toList,
    "        failure_payload: vec![],".toList,
    "    \x7d;".toList,
    "".toList,
    "    let result = replay_seed_bundle(&bundle);".toList,
    "    assert_eq!(result.actual.category, ".toList ++ category ++ ");".toList,
    "    assert_eq!(result.actual.digest, ".toList ++ digest ++ ");".toList,
    "    assert_eq!(result.actual.signature_hash, ".toList ++ signatureHash ++ ");".toList,
    "    assert!(result.matches, \"replay should match exported failing bundle signature\");".toList,
    "\x7d".toList]

def testLines (printable : Char → Bool) (bundle : CaseBundle Environment Envelope) (testName : List Char) :
    List (List Char) :=
  "#[test]".toList :: ("fn ".toList ++ testName ++ "() \x7b".toList) :: testBody printable bundle

def formatRustRegressionTestFn (printable : Char → Bool) (bundle : CaseBundle Environment Envelope)
    (testName : List Char) : Except String (List Char) :=
  if ¬isValidRustIdent testName then
    .error "invalid test name: must be a non-empty Rust identifier (a-z, A-Z, 0-9, _)"
  else .ok (unlines (testLines printable bundle testName))

def pushIndented (out block : List Char) : List Char :=
  (lines block).foldl (fun out line => out ++ "        ".toList ++ line ++ ['\n']) out

def pushTest (printable : Char → Bool) (out : List Char) (bundle : CaseBundle Environment Envelope) :
    Except String (List Char) := do
  let block ← formatRustRegressionTestFn printable bundle (defaultTestName bundle)
  return pushIndented out block ++ ['\n']

def pushGroup (printable : Char → Bool) (out : List Char)
    (group : RegressionGroupKey × List (CaseBundle Environment Envelope)) : Except String (List Char) := do
  let modName := regressionGroupModuleIdent group.1
  if ¬isValidRustIdent modName then throw ("generated invalid module ident: " ++ String.ofList modName)
  let out ← group.2.foldlM (pushTest printable) (out ++ "    pub mod ".toList ++ modName ++ " \x7b".toList ++ ['\n'])
  return out ++ "    \x7d".toList ++ ['\n', '\n']

def suiteTitle : List Char :=
  "//! Auto-generated regression suite — grouped by domain risk ([`FailureClass`]) and expected failure mode (`signature.category`).".toList

def suiteHead (rootModule : List Char) : List Char :=
  suiteTitle ++ ['\n'] ++ "//! Run a single group: `cargo test ".toList ++ rootModule ++
    "::regression_<domain>_<mode>`".toList ++ ['\n', '\n'] ++ "pub mod ".toList ++ rootModule ++ " \x7b".toList ++ ['\n']

def exportRustRegressionSuite (printable : Char → Bool) (rootModule : List Char)
    (bundles : List (CaseBundle Environment Envelope)) : Except String (List Char) :=
  if ¬isValidRustIdent rootModule then
    .error "invalid root module name: must be a Rust identifier (a-z, A-Z, 0-9, _)"
  else if bundles.isEmpty then
    .ok ("//! Auto-generated regression suite (empty).".toList ++ ['\n', '\n'] ++ "pub mod ".toList ++ rootModule ++
      " \x7b\x7d".toList ++ ['\n'])
  else do
    let out ← (groupBundlesByRegressionGroup bundles).toList.foldlM (pushGroup printable) (suiteHead rootModule)
    return out ++ "\x7d".toList ++ ['\n']

end Suites

end CrashLab.RegressionGrouping
