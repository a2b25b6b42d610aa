import ExprLang.Number.Shortest

/-! The two texts of a double: the general one, which changes to a power of ten for very large and
very small numbers, and the plain one, which never does. -/
namespace ExprLang.Double

/-- The digits of a decimal fraction without the zeros at its end, and the place of its point
counted from the first digit. -/
def significant (d : Decimal) : List Char × Int :=
  let all := Decimal.digitChars d.digits
  let kept := (all.reverse.dropWhile (· == '0')).reverse
  (kept, (all.length : Int) + d.exponent)

/-- The parts before and behind the point. -/
def positional (digits : List Char) (point : Int) : List Char × List Char :=
  if point ≤ 0 then (['0'], List.replicate (-point).toNat '0' ++ digits)
  else
    let count := point.toNat
    (digits.take count ++ List.replicate (count - digits.length) '0', digits.drop count)

/-- A power of ten with its sign and at least two digits. -/
def powerText (power : Int) : List Char :=
  let digits := Decimal.digitChars power.natAbs
  'e' :: (if power < 0 then '-' else '+') :: (List.replicate (2 - digits.length) '0' ++ digits)

def scientific (digits : List Char) (point : Int) : List Char :=
  digits.take 1 ++ (if digits.length ≤ 1 then [] else '.' :: digits.drop 1) ++ powerText (point - 1)

/-- A magnitude in general form: positional from `10⁻⁴` up to `10¹⁶`, and never without a point or
a power of ten. -/
def magnitudeText (index : Nat) : List Char :=
  if index = 0 then ['0', '.', '0']
  else
    let (digits, point) := significant (shortest index)
    if -4 < point && point ≤ 16 then
      let (whole, fraction) := positional digits point
      whole ++ '.' :: (if fraction.isEmpty then ['0'] else fraction)
    else scientific digits point

/-- A decimal fraction in plain form: digits, and a point only before a fraction. -/
def plainDecimalText (d : Decimal) : List Char :=
  let (digits, point) := significant d
  let (whole, fraction) := positional digits point
  if fraction.isEmpty then whole else whole ++ '.' :: fraction

def plainMagnitudeText (index : Nat) : List Char :=
  if index = 0 then ['0'] else plainDecimalText (shortest index)

def signText (negative : Bool) : List Char := if negative then ['-'] else []

/-- The general text of a number. It reads back as the same number. -/
def text : Double → String
  | .finite negative index => String.ofList (signText negative ++ magnitudeText index)
  | .infinite negative => String.ofList (signText negative ++ ['i', 'n', 'f'])
  | .nan => "nan"

/-- The plain text of a number, as programs write it. -/
def plainText : Double → String
  | .finite negative index => String.ofList (signText negative ++ plainMagnitudeText index)
  | .infinite negative => String.ofList (signText negative) ++ "Infinity"
  | .nan => "NaN"

end ExprLang.Double
