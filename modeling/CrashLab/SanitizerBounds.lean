import CrashLab.SanitizedWindows

namespace CrashLab.SanitizerBounds

open FixtureSanitize SanitizedWindows SignatureHash

inductive Fault where
  | index (index length : ℕ)
  | slice (start stop length : ℕ)
  | lengths (destination source : ℕ)
  | subtraction (minuend subtrahend : ℕ)
  | endless
deriving DecidableEq, Repr

section Accesses

/-- `out[i]` -/
def index (out : List UInt8) (i : ℕ) : Except Fault UInt8 :=
  match out[i]? with
  | some b => .ok b
  | none => .error (.index i out.length)

/-- `out[i] = b` -/
def store (out : List UInt8) (i : ℕ) (b : UInt8) : Except Fault (List UInt8) :=
  if i < out.length then .ok (out.set i b) else .error (.index i out.length)

/-- `&out[start..stop]` -/
def slice (out : List UInt8) (start stop : ℕ) : Except Fault (List UInt8) :=
  if start ≤ stop ∧ stop ≤ out.length then .ok ((out.take stop).drop start) else .error (.slice start stop out.length)

def sub (minuend subtrahend : ℕ) : Except Fault ℕ :=
  if subtrahend ≤ minuend then .ok (minuend - subtrahend) else .error (.subtraction minuend subtrahend)

/-- `out[start..stop].copy_from_slice(source)` -/
def copyFrom (out : List UInt8) (start stop : ℕ) (source : List UInt8) : Except Fault (List UInt8) := do
  let destination ← slice out start stop
  if source.length = destination.length then return copyFromSlice out start source
  else throw (.lengths destination.length source.length)

/-- `out.copy_within(start..stop, dest)` -/
def moveWithin (out : List UInt8) (start stop dest : ℕ) : Except Fault (List UInt8) := do
  let source ← slice out start stop
  if dest ≤ out.length - source.length then return copyWithin out start stop dest
  else throw (.slice dest (dest + source.length) out.length)

theorem index_ok {out : List UInt8} {i : ℕ} (h : i < out.length) : index out i = .ok out[i] := by
  rw [index, List.getElem?_eq_getElem h]

theorem slice_ok {out : List UInt8} {start stop : ℕ} (h : start ≤ stop) (hstop : stop ≤ out.length) :
    slice out start stop = .ok ((out.take stop).drop start) := if_pos ⟨h, hstop⟩

theorem sub_ok {a b : ℕ} (h : b ≤ a) : sub a b = .ok (a - b) := if_pos h

theorem length_slice {out : List UInt8} {start stop : ℕ} (hstop : stop ≤ out.length) :
    ((out.take stop).drop start).length = stop - start := by
  rw [List.length_drop, List.length_take, min_eq_left hstop]

theorem copyFrom_ok {out source : List UInt8} {start stop : ℕ} (h : start + source.length = stop)
    (hstop : stop ≤ out.length) : copyFrom out start stop source = .ok (copyFromSlice out start source) := by
  have hlength : source.length = ((out.take stop).drop start).length := by
    rw [length_slice hstop]
    omega
  rw [copyFrom, slice_ok (by omega) hstop]
  exact if_pos hlength

theorem moveWithin_ok {out : List UInt8} {start stop dest : ℕ} (h : start ≤ stop) (hstop : stop ≤ out.length)
    (hdest : dest + (stop - start) ≤ out.length) : moveWithin out start stop dest = .ok (copyWithin out start stop dest) := by
  have hroom : dest ≤ out.length - ((out.take stop).drop start).length := by
    rw [length_slice hstop]
    omega
  rw [moveWithin, slice_ok h hstop]
  exact if_pos hroom

end Accesses

section Loops

/-- `while i < out.len() && p(out[i]) { i += 1 }` -/
def scanWhile (p : UInt8 → Bool) (out : List UInt8) (i : ℕ) : Except Fault ℕ :=
  if i < out.length then do
    let b ← index out i
    if p b then scanWhile p out (i + 1) else return i
  else return i
termination_by out.length - i

/-- `while out.get(i).is_some_and(p) { i += 1 }` -/
def getWhile (p : UInt8 → Bool) (out : List UInt8) (i : ℕ) : ℕ :=
  match _h : out[i]? with
  | some b => if p b then getWhile p out (i + 1) else i
  | none => i
termination_by out.length - i
decreasing_by
  obtain ⟨hlt, -⟩ := List.getElem?_eq_some_iff.mp _h
  omega

/-- `for i in start..stop { out[i] = b'x' }` -/
def maskRange (out : List UInt8) (start stop : ℕ) : Except Fault (List UInt8) :=
  (List.range' start (stop - start)).foldlM (fun out i => store out i redacted) out

theorem scanWhile_ok (p : UInt8 → Bool) (out : List UInt8) (i : ℕ) :
    scanWhile p out i = .ok (i + ((out.drop i).takeWhile p).length) := by
  induction hn : out.length - i generalizing i with
  | zero =>
    rw [scanWhile, if_neg (by omega), List.drop_eq_nil_of_le (by omega)]
    rfl
  | succ n ih =>
    have hlt : i < out.length := by omega
    rw [scanWhile, if_pos hlt, index_ok hlt, List.drop_eq_getElem_cons hlt, List.takeWhile_cons]
    simp only [bind, Except.bind]
    split_ifs
    · rw [ih (i + 1) (by omega), List.length_cons]
      congr 1
      omega
    · rfl

theorem getWhile_eq (p : UInt8 → Bool) (out : List UInt8) (i : ℕ) :
    getWhile p out i = i + ((out.drop i).takeWhile p).length := by
  induction hn : out.length - i generalizing i with
  | zero =>
    rw [getWhile, List.drop_eq_nil_of_le (by omega)]
    split
    · next b hb =>
      obtain ⟨hlt, -⟩ := List.getElem?_eq_some_iff.mp hb
      omega
    · rfl
  | succ n ih =>
    have hlt : i < out.length := by omega
    rw [getWhile, List.drop_eq_getElem_cons hlt, List.takeWhile_cons]
    split
    · next b hb =>
      obtain ⟨-, rfl⟩ := List.getElem?_eq_some_iff.mp hb
      split_ifs
      · rw [ih (i + 1) (by omega), List.length_cons]
        omega
      · rfl
    · next hnone =>
      rw [List.getElem?_eq_getElem hlt] at hnone
      cases hnone

theorem store_fold (n : ℕ) {out : List UInt8} {start : ℕ} (h : start + n ≤ out.length) :
    (List.range' start n).foldlM (fun out i => store out i redacted) out =
      .ok (out.take start ++ List.replicate n redacted ++ out.drop (start + n)) := by
  induction n generalizing out start with
  | zero =>
    rw [List.replicate_zero, List.append_nil, Nat.add_zero, List.take_append_drop]
    rfl
  | succ n ih =>
    have hstored : store out start redacted = .ok (out.set start redacted) := if_pos (by omega)
    have hset : out.set start redacted = out.take start ++ redacted :: out.drop (start + 1) := by
      rw [List.set_eq_take_append_cons_drop, if_pos (by omega)]
    have htake : (out.set start redacted).take (start + 1) = out.take start ++ [redacted] := by
      have hlength : (out.take start).length = start := by
        rw [List.length_take]
        omega
      rw [hset, List.take_append, List.take_of_length_le (by omega), hlength, Nat.add_sub_cancel_left]
      rfl
    have hdrop : (out.set start redacted).drop (start + 1 + n) = out.drop (start + (n + 1)) := by
      rw [List.drop_set_of_lt (by omega)]
      congr 1
      omega
    rw [List.range'_succ, List.foldlM_cons, hstored]
    simp only [bind, Except.bind]
    rw [ih (by rw [List.length_set]; omega), htake, hdrop, List.append_assoc, List.append_assoc, List.replicate_succ,
      List.append_assoc]
    rfl

theorem maskRange_ok {out : List UInt8} {start stop : ℕ} (h : start ≤ stop) (hstop : stop ≤ out.length) :
    maskRange out start stop = .ok (replaceWithX out start stop) := by
  rw [maskRange, store_fold (stop - start) (by omega), replaceWithX, copyFromSlice_eq, List.length_replicate]

end Loops

section Rules

def bearer (out : List UInt8) (valueStart : ℕ) : Except Fault ℕ := do
  let rest ← slice out valueStart out.length
  if 7 ≤ rest.length ∧ eqIgnoreAsciiCase (rest.take 7) (asBytes "bearer ") then
    let valueStart := valueStart + 7
    return if valueStart < out.length then valueStart + 1 else valueStart
  else return valueStart

/-- From behind a pattern to its value, or `none` where no separator stands. -/
def separatedStart (out name : List UInt8) (stop : ℕ) : Except Fault (Option (ℕ × Bool)) :=
  let position := getWhile isAsciiWhitespace out (skipQuote out stop).1
  if out[position]? = some 0x3D ∨ out[position]? = some 0x3A then do
    let (position, quoted) := skipQuote out (getWhile isAsciiWhitespace out (position + 1))
    let position ← if eqIgnoreAsciiCase name (asBytes "authorization") then bearer out position else .ok position
    return some (position, quoted)
  else return none

def spliceCanonical (out : List UInt8) (valueStart valueEnd : ℕ) (replacement : List UInt8) :
    Except Fault (List UInt8) := do
  let valueLength ← sub valueEnd valueStart
  let lenDiff := (replacement.length : ℤ) - valueLength
  let newEnd := valueStart + replacement.length
  if lenDiff = 0 then copyFrom out valueStart valueEnd replacement
  else if lenDiff < 0 then
    let out ← copyFrom out valueStart newEnd replacement
    let out ← moveWithin out newEnd valueEnd newEnd
    let kept ← sub out.length (-lenDiff).toNat
    return out.take kept
  else
    let oldLen := out.length
    let out := out ++ List.replicate lenDiff.toNat 0
    let out ← moveWithin out valueEnd oldLen newEnd
    copyFrom out valueStart newEnd replacement

def applyStrategy (pass : Pass) (rule : SanitizationRule) (valueStart valueEnd : ℕ) : Except Fault Pass :=
  match rule.strategy with
  | .replaceWithX => do
    let out ← maskRange pass.out valueStart valueEnd
    return ⟨out, valueEnd, pass.report.record rule.category⟩
  | .replaceWithCanonical sentinel => do
    let replacement := asBytes sentinel
    let out ← spliceCanonical pass.out valueStart valueEnd replacement
    return ⟨out, valueStart + replacement.length, pass.report.record rule.category⟩

/-- The body of the loop over the rules; `none` goes on to the next rule. -/
def tryRule (pass : Pass) (rule : SanitizationRule) : Except Fault (Option Pass) := do
  let stop := pass.index + rule.pattern.length
  if pass.out.length < stop then return none
  else
    let here ← slice pass.out pass.index stop
    if eqIgnoreAsciiCase here rule.pattern then
      if rule.expectSeparator then
        match ← separatedStart pass.out rule.pattern stop with
        | none => return none
        | some (start, quoted) =>
          let valueEnd ← scanWhile (fun b => !isValueDelimiter b && !(quoted && b == quotation)) pass.out start
          some <$> applyStrategy pass rule start valueEnd
      else
        let valueEnd ← scanWhile (fun b => !isValueDelimiter b) pass.out stop
        some <$> applyStrategy pass rule stop valueEnd
    else return none

def tryRules (pass : Pass) : List SanitizationRule → Except Fault (Option Pass)
  | [] => .ok none
  | rule :: rules => do
    match ← tryRule pass rule with
    | some next => return some next
    | none => tryRules pass rules

def liveToken (pass : Pass) : Except Fault (Option Pass) :=
  if pass.index + 8 ≤ pass.out.length then do
    let name ← slice pass.out pass.index (pass.index + 8)
    if name = asBytes "sk_live_" ∨ name = asBytes "sk_test_" then
      let stop ← scanWhile isAsciiAlphanumeric pass.out (pass.index + 8)
      let out ← maskRange pass.out pass.index stop
      return some ⟨out, stop, pass.report.record "credential"⟩
    else return none
  else return none

/-- The body of the scanning loop. -/
def step (context : SanitizationContext) (pass : Pass) : Except Fault Pass := do
  match ← liveToken pass with
  | some next => return next
  | none =>
    match ← tryRules pass context.rules with
    | some next => return next
    | none => return { pass with index := pass.index + 1 }

/-- The scanning loop, given up after a number of iterations. -/
def scan (context : SanitizationContext) : ℕ → Pass → Except Fault Pass
  | 0, pass => if pass.index < pass.out.length then .error .endless else .ok pass
  | iterations + 1, pass =>
    if pass.index < pass.out.length then do
      let next ← step context pass
      scan context iterations next
    else .ok pass

def credentialPrefix (bytes : List UInt8) (position : ℕ) : List (List UInt8) → Except Fault (Option (List UInt8))
  | [] => .ok none
  | pattern :: patterns =>
    let stop := position + pattern.length
    if stop ≤ bytes.length then do
      let here ← slice bytes position stop
      if eqIgnoreAsciiCase here pattern then return some pattern else credentialPrefix bytes position patterns
    else credentialPrefix bytes position patterns

def redactTokens : ℕ → List UInt8 → ℕ → Except Fault (List UInt8)
  | 0, bytes, position => if position < bytes.length then .error .endless else .ok bytes
  | iterations + 1, bytes, position =>
    if position < bytes.length then do
      match ← credentialPrefix bytes position inlineCredentialPrefixes with
      | none => redactTokens iterations bytes (position + 1)
      | some pattern =>
        let stop ← scanWhile isCredentialTokenChar bytes (position + pattern.length)
        let slots ← slice bytes position stop
        redactTokens iterations (copyFromSlice bytes position (List.replicate slots.length redacted)) stop
    else .ok bytes

/-- `sanitize_payload_with_context` with every access checked. -/
def sanitizeChecked (iterations : ℕ) (payload : List UInt8) (context : SanitizationContext) :
    Except Fault (List UInt8 × SanitizationReport) := do
  let pass ← scan context iterations ⟨payload, 0, .empty⟩
  let out ← redactTokens iterations pass.out 0
  return (out, pass.report)

end Rules

section Matches

variable {out name : List UInt8}

theorem bearer_ok {start : ℕ} (h : start ≤ out.length) : bearer out start = .ok (skipBearer out start) := by
  have hrest : (out.take out.length).drop start = out.drop start := by rw [List.take_length]
  rw [bearer, slice_ok h le_rfl, hrest, skipBearer]
  simp only [bind, Except.bind]
  by_cases hscheme : eqIgnoreAsciiCase ((out.drop start).take 7) (asBytes "bearer ") = true
  · have hseven : 7 ≤ (out.drop start).length := by
      have hlength := congrArg List.length (beq_iff_eq.mp hscheme)
      have hname : (asBytes "bearer ").length = 7 := by decide +kernel
      rw [List.length_map, List.length_map, hname, List.length_take] at hlength
      omega
    rw [if_pos ⟨hseven, hscheme⟩, if_pos hscheme]
    rfl
  · rw [if_neg fun hboth => hscheme hboth.2, if_neg hscheme]
    rfl

theorem separatedStart_ok (stop : ℕ) : separatedStart out name stop =
    .ok ((separatedValue out stop name).map fun (start, _, quoted) => (start, quoted)) := by
  have hskip (position : ℕ) : getWhile isAsciiWhitespace out position = skipWhitespace out position := getWhile_eq ..
  unfold separatedStart separatedValue
  simp only [hskip]
  by_cases hseparator : out[skipWhitespace out (skipQuote out stop).1]? = some 0x3D ∨
      out[skipWhitespace out (skipQuote out stop).1]? = some 0x3A
  · have hlt : skipWhitespace out (skipQuote out stop).1 < out.length := by
      obtain hfound | hfound := hseparator
      · exact (List.getElem?_eq_some_iff.mp hfound).1
      · exact (List.getElem?_eq_some_iff.mp hfound).1
    have hvalue := skipQuote_le (skipWhitespace_le (Nat.succ_le_of_lt hlt))
    rw [if_pos hseparator, if_pos hseparator]
    split_ifs
    · rw [bearer_ok hvalue]
      rfl
    · rfl
  · rw [if_neg hseparator, if_neg hseparator]
    rfl

theorem spliceCanonical_ok {start stop : ℕ} (h : start ≤ stop) (hstop : stop ≤ out.length) (replacement : List UInt8) :
    spliceCanonical out start stop replacement = .ok (replaceWithCanonical out start stop replacement) := by
  rw [spliceCanonical, sub_ok h, replaceWithCanonical]
  simp only [bind, Except.bind]
  obtain hshorter | hfits | hlonger := Nat.lt_trichotomy replacement.length (stop - start)
  · have hcopied : (copyFromSlice out start replacement).length = out.length := length_copyFromSlice (by omega)
    have hmoved : copyWithin (copyFromSlice out start replacement) (start + replacement.length) stop
        (start + replacement.length) = copyFromSlice out start replacement :=
      copyWithin_self (by omega) (by omega)
    have hcut : (-((replacement.length : ℤ) - (stop - start : ℕ))).toNat = stop - start - replacement.length := by omega
    rw [if_neg (by omega), if_pos (by omega), if_neg (by omega), if_pos hshorter, copyFrom_ok rfl (by omega)]
    dsimp only
    rw [moveWithin_ok (by omega) (by omega) (by omega)]
    dsimp only
    rw [hmoved, hcut, sub_ok (by omega)]
    rfl
  · rw [if_pos (by omega), if_pos hfits, copyFrom_ok (by omega) hstop]
  · have hgrowth : ((replacement.length : ℤ) - (stop - start : ℕ)).toNat = replacement.length - (stop - start) := by omega
    have hgrown : (out ++ List.replicate (replacement.length - (stop - start)) 0).length =
        out.length + (replacement.length - (stop - start)) := by
      rw [List.length_append, List.length_replicate]
    rw [if_neg (by omega), if_neg (by omega), if_neg (by omega), if_neg (by omega), hgrowth,
      moveWithin_ok hstop (by omega) (by omega)]
    dsimp only
    have hmoved : (copyWithin (out ++ List.replicate (replacement.length - (stop - start)) 0) stop out.length
        (start + replacement.length)).length = out.length + (replacement.length - (stop - start)) := by
      rw [copyWithin, length_copyFromSlice, hgrown]
      rw [length_slice (by omega)]
      omega
    rw [copyFrom_ok rfl (by omega)]

end Matches

section Positions

variable (out : List UInt8) (index position : ℕ)

theorem skipWhitespace_add : skipWhitespace out (index + position) =
    index + skipWhitespace (out.drop index) position := by
  rw [skipWhitespace, skipWhitespace, List.drop_drop, Nat.add_assoc]

theorem skipQuote_add : skipQuote out (index + position) =
    (skipQuote (out.drop index) position).map (index + ·) id := by
  rw [skipQuote, skipQuote, List.getElem?_drop]
  split_ifs
  · rfl
  · rfl

theorem skipBearer_add : skipBearer out (index + position) = index + skipBearer (out.drop index) position := by
  have hroom : index + position + 7 < out.length ↔ position + 7 < (out.drop index).length := by
    rw [List.length_drop]
    omega
  simp only [skipBearer, List.drop_drop, hroom]
  split_ifs
  · rfl
  · rfl
  · rfl

theorem separatedValue_add (name : List UInt8) : separatedValue out (index + position) name =
    (separatedValue (out.drop index) position name).map fun (start, flags) => (index + start, flags) := by
  unfold separatedValue
  simp only [skipQuote_add, Prod.map_fst, Prod.map_snd, id, skipWhitespace_add, List.getElem?_drop, Nat.add_assoc]
  split_ifs
  · rw [skipBearer_add]
    rfl
  · rfl
  · rfl

end Positions

section Steps

variable {pass : Pass} {rule : SanitizationRule}

def applied (pass : Pass) (rule : SanitizationRule) (range : ℕ × ℕ) : Pass :=
  match rule.strategy with
  | .replaceWithX => ⟨replaceWithX pass.out (pass.index + range.1) (pass.index + range.2), pass.index + range.2,
      pass.report.record rule.category⟩
  | .replaceWithCanonical sentinel =>
    ⟨replaceWithCanonical pass.out (pass.index + range.1) (pass.index + range.2) (asBytes sentinel),
      pass.index + range.1 + (asBytes sentinel).length, pass.report.record rule.category⟩

theorem length_ahead (h : pass.index ≤ pass.out.length) : pass.index + pass.ahead.length = pass.out.length := by
  rw [Pass.ahead, List.length_drop]
  omega

theorem slice_ahead {n : ℕ} (h : pass.index + n ≤ pass.out.length) :
    slice pass.out pass.index (pass.index + n) = .ok (pass.ahead.take n) := by
  rw [slice_ok (Nat.le_add_right _ _) h, List.drop_take, Nat.add_sub_cancel_left]
  rfl

theorem scanWhile_ahead (p : UInt8 → Bool) (n : ℕ) : scanWhile p pass.out (pass.index + n) =
    .ok (pass.index + (n + ((pass.ahead.drop n).takeWhile p).length)) := by
  rw [scanWhile_ok, Pass.ahead, List.drop_drop, Nat.add_assoc]

theorem valueEnd_ahead (n : ℕ) (quoted : Bool) :
    scanWhile (fun b => !isValueDelimiter b && !(quoted && b == quotation)) pass.out (pass.index + n) =
      .ok (pass.index + valueEnd pass.ahead n quoted) := scanWhile_ahead _ n

theorem plainEnd_ahead (n : ℕ) : scanWhile (fun b => !isValueDelimiter b) pass.out (pass.index + n) =
    .ok (pass.index + valueEnd pass.ahead n false) := by
  have hplain : (fun b => !isValueDelimiter b) = fun b => !isValueDelimiter b && !(false && b == quotation) := by
    funext b
    rw [Bool.false_and, Bool.not_false, Bool.and_true]
  rw [hplain, valueEnd_ahead]

theorem separatedStart_ahead (name : List UInt8) (n : ℕ) : separatedStart pass.out name (pass.index + n) =
    .ok ((separatedValue pass.ahead n name).map fun (start, _, quoted) => (pass.index + start, quoted)) := by
  rw [separatedStart_ok, separatedValue_add, Option.map_map]
  rfl

theorem applyStrategy_ok (h : pass.index ≤ pass.out.length) {start stop : ℕ} (hstart : start ≤ stop)
    (hstop : stop ≤ pass.ahead.length) : applyStrategy pass rule (pass.index + start) (pass.index + stop) =
      .ok (applied pass rule (start, stop)) := by
  have hlength := length_ahead h
  unfold applyStrategy applied
  cases rule.strategy with
  | replaceWithX =>
    dsimp only
    rw [maskRange_ok (by omega) (by omega)]
    rfl
  | replaceWithCanonical sentinel =>
    dsimp only
    rw [spliceCanonical_ok (by omega) (by omega)]
    rfl

theorem tryRule_ok (h : pass.index ≤ pass.out.length) :
    tryRule pass rule = .ok ((valueRange rule pass.ahead).map (applied pass rule)) := by
  have hlength := length_ahead h
  have hbounds {start stop : ℕ} (hrange : valueRange rule pass.ahead = some (start, stop)) :
      applyStrategy pass rule (pass.index + start) (pass.index + stop) = .ok (applied pass rule (start, stop)) :=
    applyStrategy_ok h (valueRange_bounds hrange).2.1 (valueRange_bounds hrange).2.2
  unfold tryRule
  unfold valueRange patternAt at hbounds ⊢
  by_cases hroom : pass.out.length < pass.index + rule.pattern.length
  · have hpattern : ¬(decide (rule.pattern.length ≤ pass.ahead.length) &&
        eqIgnoreAsciiCase (pass.ahead.take rule.pattern.length) rule.pattern) = true := by
      rw [Bool.and_eq_true, decide_eq_true_eq]
      omega
    rw [if_pos hroom, if_neg hpattern]
    rfl
  · have hfits : decide (rule.pattern.length ≤ pass.ahead.length) = true := decide_eq_true (by omega)
    rw [hfits, Bool.true_and] at hbounds ⊢
    rw [if_neg hroom, slice_ahead (by omega)]
    dsimp only [bind, Except.bind]
    by_cases hpattern : eqIgnoreAsciiCase (pass.ahead.take rule.pattern.length) rule.pattern = true
    · rw [if_pos hpattern] at hbounds ⊢
      rw [if_pos hpattern]
      by_cases hseparator : rule.expectSeparator = true
      · rw [if_pos hseparator] at hbounds ⊢
        rw [if_pos hseparator, separatedStart_ahead]
        dsimp only
        cases hvalue : separatedValue pass.ahead rule.pattern.length rule.pattern with
        | none => rfl
        | some found =>
          obtain ⟨start, quotedKey, quoted⟩ := found
          dsimp only [Option.map_some]
          rw [valueEnd_ahead]
          dsimp only
          rw [hbounds (by rw [hvalue]; rfl)]
          rfl
      · rw [if_neg hseparator] at hbounds ⊢
        rw [if_neg hseparator, plainEnd_ahead]
        dsimp only
        rw [hbounds rfl]
        rfl
    · rw [if_neg hpattern, if_neg hpattern]
      rfl

theorem tryRules_ok (h : pass.index ≤ pass.out.length) (rules : List SanitizationRule) : tryRules pass rules =
    .ok ((rules.findSome? fun rule => (valueRange rule pass.ahead).map fun range => (rule, range)).map
      fun (rule, range) => applied pass rule range) := by
  induction rules with
  | nil => rfl
  | cons rule rules ih =>
    rw [tryRules, tryRule_ok h, List.findSome?_cons]
    dsimp only [bind, Except.bind]
    cases valueRange rule pass.ahead with
    | none => exact ih
    | some range => rfl

theorem liveToken_ok (h : pass.index ≤ pass.out.length) : liveToken pass = .ok ((liveTokenEnd pass.ahead).map
    fun stop => ⟨replaceWithX pass.out pass.index (pass.index + stop), pass.index + stop,
      pass.report.record "credential"⟩) := by
  have hlength := length_ahead h
  unfold liveToken
  by_cases hroom : pass.index + 8 ≤ pass.out.length
  · rw [if_pos hroom, slice_ahead hroom]
    dsimp only [bind, Except.bind]
    by_cases htoken : pass.ahead.take 8 = asBytes "sk_live_" ∨ pass.ahead.take 8 = asBytes "sk_test_"
    · have hend : liveTokenEnd pass.ahead = some (8 + ((pass.ahead.drop 8).takeWhile isAsciiAlphanumeric).length) :=
        if_pos htoken
      have hstop := (liveTokenEnd_bounds hend).2
      rw [if_pos htoken, scanWhile_ahead, hend]
      dsimp only
      rw [maskRange_ok (Nat.le_add_right _ _) (by omega)]
      rfl
    · have hend : liveTokenEnd pass.ahead = none := if_neg htoken
      rw [if_neg htoken, hend]
      rfl
  · have hend : liveTokenEnd pass.ahead = none := by
      cases hfound : liveTokenEnd pass.ahead with
      | none => rfl
      | some stop =>
        have hbounds := liveTokenEnd_bounds hfound
        omega
    rw [if_neg hroom, hend]
    rfl

theorem step_ok (context : SanitizationContext) (h : pass.index ≤ pass.out.length) :
    step context pass = .ok (pass.step context) := by
  have hrules : tryRules pass context.rules = .ok ((matchingRule context pass.ahead).map
      fun (rule, range) => applied pass rule range) := tryRules_ok h context.rules
  unfold step Pass.step
  rw [liveToken_ok h]
  dsimp only [bind, Except.bind]
  cases liveTokenEnd pass.ahead with
  | some stop => rfl
  | none =>
    dsimp only [Option.map_none]
    rw [hrules]
    dsimp only
    cases matchingRule context pass.ahead with
    | none => rfl
    | some found =>
      obtain ⟨rule, start, stop⟩ := found
      dsimp only [Option.map_some, applied]
      cases rule.strategy with
      | replaceWithX => rfl
      | replaceWithCanonical sentinel => rfl

end Steps

section Runs

theorem scan_done (context : SanitizationContext) (iterations : ℕ) (behind : List UInt8) (report : SanitizationReport) :
    scan context iterations (passAt behind [] report) = .ok (passAt behind [] report) := by
  have hdone : ¬(passAt behind [] report).index < (passAt behind [] report).out.length := by simp [passAt]
  cases iterations with
  | zero => exact if_neg hdone
  | succ iterations => exact if_neg hdone

theorem run_done (context : SanitizationContext) (behind : List UInt8) (report : SanitizationReport) :
    Pass.run context (passAt behind [] report) = some (passAt behind [] report) := by
  have hdone : ¬(passAt behind [] report).index < (passAt behind [] report).out.length := by simp [passAt]
  rw [Pass.run, if_neg hdone]

theorem scan_ok {context : SanitizationContext} (hne : ∀ rule ∈ context.rules, rule.pattern ≠ [])
    {behind w : List UInt8} {report : SanitizationReport} {final : Pass} {iterations : ℕ} (h : w.length ≤ iterations)
    (hrun : Pass.run context (passAt behind w report) = some final) :
    scan context iterations (passAt behind w report) = .ok final := by
  induction iterations generalizing behind w report with
  | zero =>
    obtain rfl : w = [] := List.eq_nil_of_length_eq_zero (Nat.le_zero.mp h)
    rw [run_done] at hrun
    rw [scan_done, Option.some_inj.mp hrun]
  | succ iterations ih =>
    by_cases hw : w = []
    · subst hw
      rw [run_done] at hrun
      rw [scan_done, Option.some_inj.mp hrun]
    · obtain ⟨emitted, next, report', hemits, hstep⟩ := step_passAt context behind hw report
      have hlt : (passAt behind w report).index < (passAt behind w report).out.length := by
        simpa [passAt] using List.length_pos_of_ne_nil hw
      have hshorter := hemits.shorter hne
      rw [Pass.run, if_pos hlt, hstep, ahead_passAt, ahead_passAt, if_pos hshorter] at hrun
      rw [scan, if_pos hlt, step_ok context hlt.le, hstep]
      exact ih (by omega) hrun

theorem credentialPrefix_ok (behind w : List UInt8) (patterns : List (List UInt8)) :
    credentialPrefix (behind ++ w) behind.length patterns = .ok (patterns.find? (patternAt w)) := by
  induction patterns with
  | nil => rfl
  | cons pattern patterns ih =>
    have hlength : (behind ++ w).length = behind.length + w.length := List.length_append
    rw [credentialPrefix, List.find?_cons]
    by_cases hroom : pattern.length ≤ w.length
    · have hhere : slice (behind ++ w) behind.length (behind.length + pattern.length) = .ok (w.take pattern.length) := by
        rw [slice_ok (Nat.le_add_right _ _) (by omega), List.take_length_add_append, List.drop_left]
      rw [if_pos (by omega), hhere, patternAt, decide_eq_true hroom, Bool.true_and]
      dsimp only [bind, Except.bind]
      cases eqIgnoreAsciiCase (w.take pattern.length) pattern with
      | true => rfl
      | false => exact ih
    · rw [if_neg (by omega), ih, patternAt, decide_eq_false hroom, Bool.false_and]

theorem redactTokens_ok {w : List UInt8} (behind : List UInt8) {iterations : ℕ} (h : w.length ≤ iterations) :
    redactTokens iterations (behind ++ w) behind.length = .ok (behind ++ redactInlineCredentialTokens w) := by
  induction w using redactInlineCredentialTokens.induct generalizing behind iterations with
  | case1 =>
    have hdone : ¬behind.length < (behind ++ []).length := by simp
    rw [redactInlineCredentialTokens]
    cases iterations with
    | zero => exact if_neg hdone
    | succ iterations => exact if_neg hdone
  | case2 b rest hn ih =>
    cases iterations with
    | zero => cases h
    | succ iterations =>
      have hlt : behind.length < (behind ++ b :: rest).length := by simp
      have hnone : inlineCredentialPrefixes.find? (patternAt (b :: rest)) = none := Option.map_eq_none_iff.mp hn
      have hrest := ih (behind ++ [b]) (Nat.le_of_succ_le_succ h)
      rw [List.append_assoc, List.append_assoc, List.length_append] at hrest
      rw [redactTokens, if_pos hlt, credentialPrefix_ok, hnone, redactInlineCredentialTokens, hn]
      exact hrest
  | case3 b rest n hn ih =>
    cases iterations with
    | zero => cases h
    | succ iterations =>
      have hlt : behind.length < (behind ++ b :: rest).length := by simp
      have hle := credentialLength_le hn
      have hpos := credentialLength_pos hn
      obtain ⟨pattern, hfind, hlength⟩ := Option.map_eq_some_iff.mp hn
      have hend : scanWhile isCredentialTokenChar (behind ++ b :: rest) (behind.length + pattern.length) =
          .ok (behind.length + n) := by
        rw [scanWhile_ok, List.drop_length_add_append, Nat.add_assoc, hlength]
      have hslots : slice (behind ++ b :: rest) behind.length (behind.length + n) = .ok ((b :: rest).take n) := by
        rw [slice_ok (Nat.le_add_right _ _) (by rw [List.length_append]; omega), List.take_length_add_append,
          List.drop_left]
      have hfilled : copyFromSlice (behind ++ b :: rest) behind.length
          (List.replicate ((b :: rest).take n).length redacted) =
            (behind ++ List.replicate n redacted) ++ (b :: rest).drop n := by
        rw [List.length_take_of_le hle, copyFromSlice_eq, List.length_replicate, List.take_left,
          List.drop_length_add_append]
      have hrest := @ih (behind ++ List.replicate n redacted) iterations (by rw [List.length_drop]; omega)
      rw [redactTokens, if_pos hlt, credentialPrefix_ok, hfind, redactInlineCredentialTokens, hn]
      dsimp only [bind, Except.bind]
      rw [hend]
      dsimp only
      rw [hslots]
      dsimp only
      rw [hfilled, ← List.append_assoc, ← hrest, List.length_append, List.length_replicate]

theorem sanitize_in_bounds (payload : List UInt8) : ∃ final result,
    (∀ iterations ≥ payload.length, scan .new iterations ⟨payload, 0, .empty⟩ = .ok final) ∧
    (∀ iterations ≥ max payload.length final.out.length, sanitizeChecked iterations payload .new = .ok result) ∧
    sanitizePayloadWithContext payload .new = some result := by
  have hne : ∀ rule ∈ SanitizationContext.new.rules, rule.pattern ≠ [] := by decide +kernel
  obtain ⟨final, hrun⟩ := run_returns hne [] payload .empty
  have hscan (iterations : ℕ) (h : payload.length ≤ iterations) :
      scan .new iterations ⟨payload, 0, .empty⟩ = .ok final := scan_ok hne h hrun
  refine ⟨final, (redactInlineCredentialTokens final.out, final.report), hscan, fun iterations h => ?_, ?_⟩
  · have htokens : redactTokens iterations final.out 0 = .ok (redactInlineCredentialTokens final.out) :=
      redactTokens_ok [] (le_of_max_le_right h)
    rw [sanitizeChecked, hscan iterations (le_of_max_le_left h)]
    dsimp only [bind, Except.bind]
    rw [htokens]
    rfl
  · exact Option.map_eq_some_iff.mpr ⟨final, hrun, rfl⟩

end Runs

end CrashLab.SanitizerBounds
