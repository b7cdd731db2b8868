import CrashLab.SignatureHash
import CrashLab.Splices

namespace CrashLab.FixtureSanitize

open SignatureHash Splices Std

def isAsciiWhitespace (b : UInt8) : Bool := b == 0x20 || b == 0x09 || b == 0x0A || b == 0x0C || b == 0x0D

def isAsciiAlphanumeric (b : UInt8) : Bool :=
  (0x30 ≤ b && b ≤ 0x39) || (0x41 ≤ b && b ≤ 0x5A) || (0x61 ≤ b && b ≤ 0x7A)

def toAsciiLowercase (b : UInt8) : UInt8 := if 0x41 ≤ b ∧ b ≤ 0x5A then b + 0x20 else b

def eqIgnoreAsciiCase (a b : List UInt8) : Bool := a.map toAsciiLowercase == b.map toAsciiLowercase

def redacted : UInt8 := 0x78

def quotation : UInt8 := 0x22

def sensitiveKeys : List (List UInt8) :=
  ["authorization", "token", "access_token", "refresh_token", "api_key", "apikey", "x-api-key", "webhook_key",
    "client_secret", "password", "secret", "private_key", "session", "cookie", "set-cookie"].map asBytes

def inlineCredentialPrefixes : List (List UInt8) :=
  ["sk_live_", "sk_test_", "rk_live_", "rk_test_", "pk_live_", "pk_test_"].map asBytes

def isCredentialTokenChar (b : UInt8) : Bool := isAsciiAlphanumeric b || b == 0x5F || b == 0x2D

/-- `end <= bytes.len() && bytes[start..end].eq_ignore_ascii_case(pat)`, with `w` the bytes from `start` on. -/
def patternAt (w pat : List UInt8) : Bool := pat.length ≤ w.length && eqIgnoreAsciiCase (w.take pat.length) pat

theorem length_credentialPrefix {p : List UInt8} (h : p ∈ inlineCredentialPrefixes) : p.length = 8 := by
  have hall : ∀ q ∈ inlineCredentialPrefixes, q.length = 8 := by decide +kernel
  exact hall p h

/-- How many bytes the credential at the head of `w` has, from its prefix on. -/
def credentialLength (w : List UInt8) : Option ℕ :=
  (inlineCredentialPrefixes.find? (patternAt w)).map fun p =>
    p.length + ((w.drop p.length).takeWhile isCredentialTokenChar).length

theorem credentialLength_pos {w : List UInt8} {n : ℕ} (h : credentialLength w = some n) : 0 < n := by
  obtain ⟨p, hfind, rfl⟩ := Option.map_eq_some_iff.mp h
  have hlen := length_credentialPrefix (List.mem_of_find?_eq_some hfind)
  omega

def redactInlineCredentialTokens (bytes : List UInt8) : List UInt8 :=
  match bytes with
  | [] => []
  | b :: rest =>
    match _hn : credentialLength (b :: rest) with
    | none => b :: redactInlineCredentialTokens rest
    | some n => List.replicate n redacted ++ redactInlineCredentialTokens ((b :: rest).drop n)
termination_by bytes.length
decreasing_by
  · exact Nat.lt_succ_self _
  · have := credentialLength_pos _hn
    rw [List.length_drop, List.length_cons]
    omega

-- blank, tab, carriage return, line feed, then & ; , the two quotes, and the three closing brackets
def isValueDelimiter (b : UInt8) : Bool :=
  [0x20, 0x09, 0x0D, 0x0A, 0x26, 0x3B, 0x2C, 0x22, 0x27, 0x29, 0x5D, 0x7D].contains b

def keyMatch (w : List UInt8) : Option (List UInt8) := sensitiveKeys.find? (patternAt w)

def skipWhitespace (w : List UInt8) (index : ℕ) : ℕ := index + ((w.drop index).takeWhile isAsciiWhitespace).length

def skipQuote (w : List UInt8) (index : ℕ) : ℕ × Bool :=
  if w[index]? = some quotation then (index + 1, true) else (index, false)

def skipBearer (w : List UInt8) (index : ℕ) : ℕ :=
  if eqIgnoreAsciiCase ((w.drop index).take 7) (asBytes "bearer ") then
    if index + 7 < w.length then index + 7 + 1 else index + 7
  else index

/-- The walk from behind a key to the value: an optional quote, one `=` or `:` between blanks, an optional quote,
and for `authorization` the scheme. Positions count from the key's first byte, the flags tell which quote was met. -/
def separatedValue (w : List UInt8) (index : ℕ) (name : List UInt8) : Option (ℕ × Bool × Bool) :=
  let (index, quotedKey) := skipQuote w index
  let index := skipWhitespace w index
  if w[index]? = some 0x3D ∨ w[index]? = some 0x3A then
    let index := skipWhitespace w (index + 1)
    let (index, quotedValue) := skipQuote w index
    let index := if eqIgnoreAsciiCase name (asBytes "authorization") then skipBearer w index else index
    some (index, quotedKey, quotedValue)
  else none

def parseValueStart (w key : List UInt8) : Option (ℕ × Bool) :=
  (separatedValue w key.length (w.take key.length)).map fun (index, quotedKey, quotedValue) =>
    (index, quotedKey || quotedValue)

def valueEnd (w : List UInt8) (start : ℕ) (quoted : Bool) : ℕ :=
  start + ((w.drop start).takeWhile fun b => !isValueDelimiter b && !(quoted && b == quotation)).length

/-- Where an `sk_live_` or `sk_test_` token at the head of `w` ends. -/
def liveTokenEnd (w : List UInt8) : Option ℕ :=
  if w.take 8 = asBytes "sk_live_" ∨ w.take 8 = asBytes "sk_test_" then
    some (8 + ((w.drop 8).takeWhile isAsciiAlphanumeric).length)
  else none

theorem le_skipWhitespace (w : List UInt8) (index : ℕ) : index ≤ skipWhitespace w index := Nat.le_add_right index _

theorem le_skipQuote (w : List UInt8) (index : ℕ) : index ≤ (skipQuote w index).1 := by
  unfold skipQuote
  split
  · exact Nat.le_succ index
  · exact Nat.le_refl index

theorem le_skipBearer (w : List UInt8) (index : ℕ) : index ≤ skipBearer w index := by
  unfold skipBearer
  split
  · split <;> omega
  · exact Nat.le_refl index

theorem separatedValue_gt {w name : List UInt8} {index start : ℕ} {flags : Bool × Bool}
    (h : separatedValue w index name = some (start, flags)) : index < start := by
  unfold separatedValue at h
  dsimp only at h
  split at h
  · obtain ⟨rfl, -⟩ := Prod.mk.inj (Option.some_inj.mp h)
    have hname := le_skipQuote w index
    have hbefore := le_skipWhitespace w (skipQuote w index).1
    have hafter := le_skipWhitespace w (skipWhitespace w (skipQuote w index).1 + 1)
    have hvalue := le_skipQuote w (skipWhitespace w (skipWhitespace w (skipQuote w index).1 + 1))
    split
    · have hscheme := le_skipBearer w
        (skipQuote w (skipWhitespace w (skipWhitespace w (skipQuote w index).1 + 1))).1
      omega
    · omega
  · cases h

/-- The bytes that the pass over a payload overwrites next, when it stands at the head of `w`. -/
def fragmentAt (w : List UInt8) : Option (ℕ × ℕ) :=
  match liveTokenEnd w with
  | some stop => some (0, stop)
  | none => do
    let key ← keyMatch w
    let (start, quoted) ← parseValueStart w key
    return (start, valueEnd w start quoted)

theorem le_valueEnd (w : List UInt8) (start : ℕ) (quoted : Bool) : start ≤ valueEnd w start quoted :=
  Nat.le_add_right start _

theorem fragmentAt_pos {w : List UInt8} {start stop : ℕ} (h : fragmentAt w = some (start, stop)) : 0 < stop := by
  unfold fragmentAt at h
  split at h
  · next n hlive =>
    obtain ⟨-, rfl⟩ := Prod.mk.inj (Option.some_inj.mp h)
    unfold liveTokenEnd at hlive
    split at hlive
    · have := Option.some_inj.mp hlive
      omega
    · cases hlive
  · obtain ⟨key, -, h⟩ := Option.bind_eq_some_iff.mp h
    obtain ⟨⟨begins, quoted⟩, hparse, h⟩ := Option.bind_eq_some_iff.mp h
    obtain ⟨rfl, rfl⟩ := Prod.mk.inj (Option.some_inj.mp h)
    obtain ⟨⟨index, flags⟩, hsep, heq⟩ := Option.map_eq_some_iff.mp hparse
    obtain ⟨rfl, -⟩ := Prod.mk.inj heq
    have hgt := separatedValue_gt hsep
    have hle := le_valueEnd w index quoted
    omega

def redactFragments (w : List UInt8) : List UInt8 :=
  match w with
  | [] => []
  | b :: rest =>
    match _h : fragmentAt (b :: rest) with
    | none => b :: redactFragments rest
    | some (start, stop) => (b :: rest).take start ++ List.replicate (stop - start) redacted ++
        redactFragments ((b :: rest).drop stop)
termination_by w.length
decreasing_by
  · exact Nat.lt_succ_self _
  · have := fragmentAt_pos _h
    rw [List.length_drop, List.length_cons]
    omega

def sanitizePayloadFragments (payload : List UInt8) : List UInt8 :=
  redactInlineCredentialTokens (redactFragments payload)

inductive RedactionStrategy where
  | replaceWithX
  | replaceWithCanonical (sentinel : String)
deriving DecidableEq, Repr

structure SanitizationRule where
  category : String
  pattern : List UInt8
  strategy : RedactionStrategy
  expectSeparator : Bool
deriving DecidableEq, Repr

structure SanitizationContext where
  rules : List SanitizationRule

namespace SanitizationContext

def credential (pattern : String) : SanitizationRule := ⟨"credential", asBytes pattern, .replaceWithX, true⟩

def hostname (pattern : String) : SanitizationRule :=
  ⟨"hostname", asBytes pattern, .replaceWithCanonical "[HOST]", false⟩

def path (pattern : String) : SanitizationRule := ⟨"path", asBytes pattern, .replaceWithCanonical "[PATH]", false⟩

def new : SanitizationContext where
  rules :=
    ["authorization", "token", "api_key", "apikey", "x-api-key", "password", "secret", "session", "cookie",
      "set-cookie"].map credential ++
    ["host=", "hostname=", "node_id=", "instance="].map hostname ++
    ["/home/", "/Users/", "/tmp/", "/var/", "C:\\"].map path

end SanitizationContext

structure SanitizationReport where
  redactionCount : ℕ
  redactionCategories : ExtTreeMap String ℕ compare

namespace SanitizationReport

def empty : SanitizationReport := ⟨0, ∅⟩

def record (report : SanitizationReport) (category : String) : SanitizationReport where
  redactionCount := report.redactionCount + 1
  redactionCategories :=
    report.redactionCategories.insert category (report.redactionCategories.getD category 0 + 1)

end SanitizationReport

def copyFromSlice (out : List UInt8) (start : ℕ) (slice : List UInt8) : List UInt8 :=
  (Splice.mk start slice.length slice).run out

/-- `out.copy_within(start..stop, dest)`. -/
def copyWithin (out : List UInt8) (start stop dest : ℕ) : List UInt8 :=
  copyFromSlice out dest ((out.take stop).drop start)

def replaceWithCanonical (out : List UInt8) (valueStart valueEnd : ℕ) (replacement : List UInt8) : List UInt8 :=
  let newEnd := valueStart + replacement.length
  if replacement.length = valueEnd - valueStart then
    copyFromSlice out valueStart replacement
  else if replacement.length < valueEnd - valueStart then
    let out := copyFromSlice out valueStart replacement
    let out := copyWithin out newEnd valueEnd newEnd
    out.take (out.length - (valueEnd - valueStart - replacement.length))
  else
    let oldLen := out.length
    let out := out ++ List.replicate (replacement.length - (valueEnd - valueStart)) 0
    let out := copyWithin out valueEnd oldLen newEnd
    copyFromSlice out valueStart replacement

def replaceWithX (out : List UInt8) (start stop : ℕ) : List UInt8 :=
  copyFromSlice out start (List.replicate (stop - start) redacted)

def valueRange (rule : SanitizationRule) (w : List UInt8) : Option (ℕ × ℕ) :=
  if patternAt w rule.pattern then
    if rule.expectSeparator then
      (separatedValue w rule.pattern.length rule.pattern).map fun (start, _, quoted) =>
        (start, valueEnd w start quoted)
    else some (rule.pattern.length, valueEnd w rule.pattern.length false)
  else none

def matchingRule (context : SanitizationContext) (w : List UInt8) : Option (SanitizationRule × ℕ × ℕ) :=
  context.rules.findSome? fun rule => (valueRange rule w).map fun range => (rule, range)

structure Pass where
  out : List UInt8
  index : ℕ
  report : SanitizationReport

namespace Pass

def ahead (pass : Pass) : List UInt8 := pass.out.drop pass.index

def step (context : SanitizationContext) (pass : Pass) : Pass :=
  match liveTokenEnd pass.ahead with
  | some stop => ⟨replaceWithX pass.out pass.index (pass.index + stop), pass.index + stop,
      pass.report.record "credential"⟩
  | none =>
    match matchingRule context pass.ahead with
    | none => { pass with index := pass.index + 1 }
    | some (rule, start, stop) =>
      match rule.strategy with
      | .replaceWithX => ⟨replaceWithX pass.out (pass.index + start) (pass.index + stop), pass.index + stop,
          pass.report.record rule.category⟩
      | .replaceWithCanonical sentinel =>
        ⟨replaceWithCanonical pass.out (pass.index + start) (pass.index + stop) (asBytes sentinel),
          pass.index + start + (asBytes sentinel).length, pass.report.record rule.category⟩

/-- `while index < out.len()`. A step that leaves as much ahead as it found (an empty pattern before an empty
value) would be repeated for ever: there the result is `none`. -/
def run (context : SanitizationContext) (pass : Pass) : Option Pass :=
  if pass.index < pass.out.length then
    if (pass.step context).ahead.length < pass.ahead.length then run context (pass.step context) else none
  else some pass
termination_by pass.ahead.length

end Pass

def sanitizePayloadWithContext (payload : List UInt8) (context : SanitizationContext) :
    Option (List UInt8 × SanitizationReport) :=
  (Pass.run context ⟨payload, 0, .empty⟩).map fun pass =>
    (redactInlineCredentialTokens pass.out, pass.report)

def sanitizeSeedWithContext (seed : CaseSeed) (context : SanitizationContext) :
    Option (CaseSeed × SanitizationReport) :=
  (sanitizePayloadWithContext seed.payload context).map fun (payload, report) => (⟨seed.id, payload⟩, report)

def sanitizeSeedForSharing (seed : CaseSeed) : Option CaseSeed :=
  (sanitizeSeedWithContext seed .new).map Prod.fst

end CrashLab.FixtureSanitize

namespace CrashLab.FixtureCompat

open FixtureSanitize

structure CompatWarning where
  fixtureIndex : ℕ
  message : String
deriving DecidableEq, Repr

structure CompatReport where
  warnings : List CompatWarning
deriving DecidableEq, Repr

def CompatReport.isCompatible (report : CompatReport) : Bool := report.warnings.isEmpty

def sanitizationWarning (i : ℕ) (seed : CaseSeed) : CompatWarning where
  fixtureIndex := i
  message := s!"seed[{i}] id={seed.id}: payload contains sanitizable secret fragments " ++
    "— run sanitize_seed_for_sharing before exporting"

def checkSeedSanitization (seeds : List CaseSeed) : CompatReport where
  warnings := seeds.zipIdx.filterMap fun (seed, i) =>
    if sanitizePayloadFragments seed.payload ≠ seed.payload then some (sanitizationWarning i seed) else none

theorem checkSeedSanitization_warnings_iff (seeds : List CaseSeed) :
    (checkSeedSanitization seeds).warnings = [] ↔
      ∀ seed ∈ seeds, sanitizePayloadFragments seed.payload = seed.payload := by
  rw [checkSeedSanitization, List.filterMap_eq_nil_iff]
  constructor
  · intro h seed hseed
    obtain ⟨i, hi, rfl⟩ := List.getElem_of_mem hseed
    by_contra hne
    have hnone := h (seeds[i], i) (List.mk_mem_zipIdx_iff_getElem?.mpr (List.getElem?_eq_getElem hi))
    dsimp only at hnone
    rw [if_pos hne] at hnone
    cases hnone
  · rintro h ⟨seed, i⟩ hmem
    have hseed : seed ∈ seeds := List.fst_mem_of_mem_zipIdx hmem
    exact if_neg fun hne => hne (h seed hseed)

end CrashLab.FixtureCompat
