import ExprLang.Number.Nearest
import ExprLang.Text.Digit
import ExprLang.Text.Integer

/-! Decimal fractions, the doubles nearest to them, and the texts they are read from. -/
namespace ExprLang

/-- The number `digits · 10 ^ exponent`. -/
structure Decimal where
  digits : Nat
  exponent : Int
  deriving DecidableEq, Repr

namespace Decimal

/-- The number as a fraction of natural numbers. -/
def fraction (d : Decimal) : Nat × Nat :=
  if 0 ≤ d.exponent then (d.digits * Nat.pow 10 d.exponent.toNat, 1)
  else (d.digits, Nat.pow 10 (-d.exponent).toNat)

def toDouble (negative : Bool) (d : Decimal) : Double :=
  Double.nearest negative d.fraction.1 d.fraction.2

def digitChars (n : Nat) : List Char := Nat.toDigits 10 n

/-- Digits with at most one point among them, and at least one digit. -/
def ofPositional? (cs : List Char) : Option Decimal :=
  let whole := cs.takeWhile (· != '.')
  let fraction := (cs.dropWhile (· != '.')).drop 1
  if (whole ++ fraction).all Text.isAsciiDigit && !(whole ++ fraction).isEmpty then
    some ⟨Nat.ofDigitChars 10 (whole ++ fraction) 0, -(fraction.length : Int)⟩
  else none

/-- Digits with an optional point, then an optional power of ten behind an `e`. -/
def ofScientific? (cs : List Char) : Option Decimal := do
  let mantissa ← ofPositional? (cs.takeWhile (· != 'e'))
  match cs.dropWhile (· != 'e') with
  | [] => some mantissa
  | _ :: power => do
    let shift ← Text.integer? power
    return ⟨mantissa.digits, mantissa.exponent + shift⟩

/-- The nearest double for any exponent. Outside of the range of doubles, the number of digits
alone decides, so that no huge power is formed. -/
def toDoubleAnyExponent (negative : Bool) (d : Decimal) : Double :=
  let size := ((digitChars d.digits).length : Int) + d.exponent
  if d.digits = 0 || size < -330 then .ofIndex negative 0
  else if 310 < size then .infinite negative
  else d.toDouble negative

end Decimal

/-- The double that a text names: a decimal number in either form, `inf` or `nan`, with an optional
minus sign. -/
def Double.ofText? (cs : List Char) : Option Double :=
  let (negative, rest) := match cs with
    | '-' :: rest => (true, rest)
    | rest => (false, rest)
  if rest = ['i', 'n', 'f'] then some (.infinite negative)
  else if rest = ['n', 'a', 'n'] then some .nan
  else (Decimal.ofScientific? rest).map (Decimal.toDoubleAnyExponent negative)

end ExprLang
