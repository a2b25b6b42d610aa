/-! Double-precision numbers. The finite magnitudes are numbered in order of size, and each is a
whole multiple of `2⁻¹⁰⁷⁴`, so that all comparisons are made on natural numbers. -/
namespace ExprLang

/-- How many fractions there are to each exponent. -/
def fractionCount : Nat := Nat.pow 2 52

/-- The binary places of a unit behind the point. -/
def unitPlaces : Nat := 1074

def unitsInOne : Nat := Nat.pow 2 unitPlaces

/-- How many finite magnitudes there are: 2047 exponents with all fractions each. -/
def magnitudeCount : Nat := 2047 * fractionCount

/-- A number in double precision. A finite one has a sign and the index of its magnitude. -/
inductive Double where
  | finite (negative : Bool) (index : Fin magnitudeCount)
  | infinite (negative : Bool)
  | nan
  deriving DecidableEq, Repr

namespace Double

/-- The size of a magnitude in units of `2⁻¹⁰⁷⁴`. -/
def units (index : Nat) : Nat :=
  if index < fractionCount then index
  else (fractionCount + index % fractionCount) * Nat.pow 2 (index / fractionCount - 1)

/-- The number of an index. The indices past the finite ones stand for infinity. -/
def ofIndex (negative : Bool) (index : Nat) : Double :=
  if h : index < magnitudeCount then .finite negative ⟨index, h⟩ else .infinite negative

/-- Equality of numbers: no NaN equals anything, and the two zeros are equal. -/
def same : Double → Double → Bool
  | .finite s i, .finite t j => i == j && (s == t || i.val == 0)
  | .infinite s, .infinite t => s == t
  | _, _ => false

def sameInteger : Double → Int → Bool
  | .finite negative index, n =>
    n.natAbs * unitsInOne == units index && (n == 0 || negative == decide (n < 0))
  | _, _ => false

def scaled (negative : Bool) (index : Nat) : Int :=
  if negative then -(units index : Int) else units index

/-- The order of numbers. NaN is neither less nor greater than any number. -/
def less : Double → Double → Bool
  | .finite s i, .finite t j => scaled s i < scaled t j
  | .finite _ _, .infinite t => !t
  | .infinite s, .finite _ _ => s
  | .infinite s, .infinite t => s && !t
  | _, _ => false

def lessInteger : Double → Int → Bool
  | .finite negative index, n => scaled negative index < n * unitsInOne
  | .infinite negative, _ => negative
  | .nan, _ => false

def exceedsInteger : Double → Int → Bool
  | .finite negative index, n => n * unitsInOne < scaled negative index
  | .infinite negative, _ => !negative
  | .nan, _ => false

end Double
end ExprLang
