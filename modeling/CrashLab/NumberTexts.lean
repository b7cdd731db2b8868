import CrashLab.Decimals
import CrashLab.Doubles

namespace CrashLab.NumberTexts

open Decimals Doubles

/-- The double nearest to a number; past the largest there is none. -/
def nearest (q : ℚ) : Option ℚ :=
  let spacing := max (ulp q) (2 ^ (-1074 : ℤ))
  let rounded := roundHalfEven (q / spacing) * spacing
  if |rounded| < 2 ^ (1024 : ℤ) then some rounded else none

def natDecimal (negative : Bool) (n : ℕ) (exponent : ℤ) : Decimal :=
  ofParts negative (Nat.toDigits 10 n) [] exponent (toDigits_isDigit n)

/-- The decimal of the fewest digits that is read as the double `q`, and of these the one nearest to it. -/
def shortest (q : ℚ) : Decimal :=
  let point := Int.log 10 |q| + 1
  let found := (List.range' 1 17).findSome? fun count : ℕ =>
    let scaled := |q| / 10 ^ (point - count)
    let digits := [roundHalfEven scaled, ⌊scaled⌋, ⌊scaled⌋ + 1].find? fun n : ℤ =>
      nearest (n * 10 ^ (point - count)) = some |q|
    digits.map fun n => natDecimal (q < 0) n.toNat (point - count)
  found.getD .zero

def infinite (negative : Bool) : Decimal := natDecimal negative 1 309

def toNumber (d : Decimal) : Decimal :=
  match nearest d.value with
  | some q => shortest q
  | none => infinite d.negative

end CrashLab.NumberTexts
