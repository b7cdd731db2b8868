import CrashLab.JsStrings
import CrashLab.NumberTexts
import CrashLab.Sorting

namespace CrashLab.Cron

open JsStrings NumberTexts Sorting

structure CronFieldSpec where
  name : String
  min : ℕ
  max : ℕ
deriving DecidableEq, Repr

def minuteSpec : CronFieldSpec := ⟨"minute", 0, 59⟩

def hourSpec : CronFieldSpec := ⟨"hour", 0, 23⟩

def dayOfMonthSpec : CronFieldSpec := ⟨"day-of-month", 1, 31⟩

def monthSpec : CronFieldSpec := ⟨"month", 1, 12⟩

/-- `parseCron` reads the day of the week with room for 7. -/
def dayOfWeekSpec : CronFieldSpec := ⟨"day-of-week", 0, 7⟩

structure CronExpression where
  source : JsString
  minute : List ℕ
  hour : List ℕ
  dayOfMonth : List ℕ
  month : List ℕ
  dayOfWeek : List ℕ
  dayOfMonthRestricted : Bool
  dayOfWeekRestricted : Bool
deriving DecidableEq

/-- The message of a `CronParseError`. -/
abbrev CronParseError := JsString

section Terms

def slash : UInt16 := 0x2F

def comma : UInt16 := 0x2C

def dash : UInt16 := 0x2D

def star : JsString := [0x2A]

def isDigit (u : UInt16) : Bool := 0x30 ≤ u.toNat && u.toNat ≤ 0x39

def isDigits (token : JsString) : Bool := token ≠ [] && token.all isDigit

def numberOf (token : JsString) : ℕ := token.foldl (fun n u => 10 * n + (u.toNat - 0x30)) 0

def numberText (n : ℕ) : JsString := ofString (toString n)

theorem numberText_injective : Function.Injective numberText := by
  intro m n h
  have hdigits := congrArg String.toList (ofString_injective h)
  rw [Nat.toString_eq_repr, Nat.toString_eq_repr, Nat.toList_repr, Nat.toList_repr] at hdigits
  rw [← Nat.ofDigitChars_ten_toDigits (n := m), hdigits, Nat.ofDigitChars_ten_toDigits]

def valueText (n : ℕ) : JsString :=
  if n < 2 ^ 53 then numberText n
  else
    match nearest n with
    | some value => (shortest value).text.flatMap units
    | none => ofString "Infinity"

def quoted (text : JsString) : JsString := ofString "\x22" ++ text ++ ofString "\x22"

def CronFieldSpec.the (spec : CronFieldSpec) : JsString := ofString ("The " ++ spec.name)

def parseNumber (token : JsString) (spec : CronFieldSpec) (term : JsString) : Except CronParseError ℕ :=
  if isDigits token = false then
    .error (spec.the ++ ofString " value " ++ quoted token ++ ofString " in " ++ quoted term ++
      ofString " is not a non-negative integer.")
  else if numberOf token < spec.min ∨ spec.max < numberOf token then
    .error (spec.the ++ ofString " value " ++ valueText (numberOf token) ++ ofString " in " ++ quoted term ++
      ofString " is out of range (" ++ numberText spec.min ++ ofString "-" ++ numberText spec.max ++ ofString ").")
  else .ok (numberOf token)

def parseStep (stepPart : JsString) (spec : CronFieldSpec) (term : JsString) : Except CronParseError ℕ :=
  if isDigits stepPart = false then
    .error (spec.the ++ ofString " step " ++ quoted stepPart ++ ofString " in " ++ quoted term ++
      ofString " is not a positive integer.")
  else if numberOf stepPart = 0 then
    .error (spec.the ++ ofString " step in " ++ quoted term ++ ofString " must be 1 or greater.")
  else .ok (numberOf stepPart)

def parseRange (rangePart : JsString) (stepped : Bool) (spec : CronFieldSpec) (term : JsString) :
    Except CronParseError (ℕ × ℕ) :=
  if rangePart = [] then
    .error (spec.the ++ ofString " term " ++ quoted term ++ ofString " is missing a value before '/'.")
  else if rangePart = star then .ok (spec.min, spec.max)
  else if dash ∈ rangePart then
    let malformed := spec.the ++ ofString " range " ++ quoted rangePart ++ ofString " is malformed."
    match rangePart.splitOn dash with
    | [low, high] =>
      if low = [] ∨ high = [] then .error malformed
      else do
        let lo ← parseNumber low spec term
        let hi ← parseNumber high spec term
        if hi < lo then
          .error (spec.the ++ ofString " range " ++ quoted rangePart ++ ofString " is inverted (" ++
            numberText lo ++ ofString " > " ++ numberText hi ++ ofString ").")
        else .ok (lo, hi)
    | _ => .error malformed
  else do
    let value ← parseNumber rangePart spec term
    return (value, if stepped then spec.max else value)

/-- `for (let v = lo; v <= hi; v += step)`. -/
def stepThrough (lo hi step : ℕ) : List ℕ := (List.range ((hi + step - lo) / step)).map (lo + step * ·)

def parseTerm (term : JsString) (spec : CronFieldSpec) : Except CronParseError (List ℕ) :=
  match term.splitOn slash with
  | [rangePart] => do
    let (lo, hi) ← parseRange rangePart false spec term
    return stepThrough lo hi 1
  | [rangePart, stepPart] => do
    let step ← parseStep stepPart spec term
    let (lo, hi) ← parseRange rangePart true spec term
    return stepThrough lo hi step
  | _ => .error (spec.the ++ ofString " term " ++ quoted term ++ ofString " has more than one step ('/').")

end Terms

section Expressions

structure ParsedField where
  values : List ℕ
  restricted : Bool
deriving DecidableEq, Repr

def parseField (raw : JsString) (spec : CronFieldSpec) : Except CronParseError ParsedField :=
  let trimmed := trim raw
  if trimmed = [] then .error (spec.the ++ ofString " field is empty.")
  else do
    let values ← (trimmed.splitOn comma).mapM fun rawTerm =>
      let term := trim rawTerm
      if term = [] then .error (spec.the ++ ofString " field " ++ quoted raw ++ ofString " has an empty list item.")
      else parseTerm term spec
    return ⟨sortDedup values.flatten, trimmed ≠ star⟩

def fieldOrder : String := "minute hour day-of-month month day-of-week"

/-- `split(/\s+/)` of a text with no white space at its ends. -/
def splitFields (trimmed : JsString) : List JsString := (trimmed.splitOnP isSpace).filter (· ≠ [])

def parseCron (source : JsString) : Except CronParseError CronExpression :=
  let trimmed := trim source
  if trimmed = [] then .error (ofString "A cron expression must not be empty.")
  else
    match splitFields trimmed with
    | [minuteField, hourField, dayOfMonthField, monthField, dayOfWeekField] => do
      let minute ← parseField minuteField minuteSpec
      let hour ← parseField hourField hourSpec
      let dayOfMonth ← parseField dayOfMonthField dayOfMonthSpec
      let month ← parseField monthField monthSpec
      let dayOfWeek ← parseField dayOfWeekField dayOfWeekSpec
      return {
        source := trimmed
        minute := minute.values
        hour := hour.values
        dayOfMonth := dayOfMonth.values
        month := month.values
        dayOfWeek := sortDedup (dayOfWeek.values.map fun v => if v = 7 then 0 else v)
        dayOfMonthRestricted := dayOfMonth.restricted
        dayOfWeekRestricted := dayOfWeek.restricted }
    | fields =>
      .error (ofString ("A cron expression must have exactly 5 fields (" ++ fieldOrder ++ "); got ") ++
        numberText fields.length ++ ofString ".")

def cronErrorMessage (source : JsString) : Option CronParseError :=
  match parseCron source with
  | .ok _ => none
  | .error message => some message

theorem cronErrorMessage_eq_none {source : JsString} :
    cronErrorMessage source = none ↔ ∃ expr, parseCron source = .ok expr := by
  unfold cronErrorMessage
  cases parseCron source <;> simp

example : (parseCron (ofString " */20 9-17/4 1 5,3 5-7 ")).map (fun expr => (expr.minute, expr.hour, expr.month,
    expr.dayOfWeek)) = .ok ([0, 20, 40], [9, 13, 17], [3, 5], [0, 5, 6]) := by decide +kernel

end Expressions

end CrashLab.Cron
