import ExprLang.Number.Decimal

/-! The shortest decimal fraction that reads back as a given double. -/
namespace ExprLang.Double

/-- A decimal fraction rounds to the magnitude `index` and to no other. -/
def readsAs (d : Decimal) (index : Nat) : Bool :=
  let (num, den) := d.fraction
  reaches num den index && !reaches num den (index + 1)

/-- The power of ten just above a magnitude: the least `k` with the magnitude below `10 ^ k`. -/
def decimalPoint (index : Nat) : Int :=
  ((Decimal.digitChars (units index * Nat.pow 10 400 / unitsInOne)).length : Int) - 400

/-- The multiple of `10 ^ exponent` just below a magnitude, or the magnitude itself. -/
def floorAt (index : Nat) (exponent : Int) : Nat :=
  if 0 ≤ exponent then units index / (unitsInOne * Nat.pow 10 exponent.toNat)
  else units index * Nat.pow 10 (-exponent).toNat / unitsInOne

/-- How a magnitude compares with the middle between two neighbours on a decimal grid. -/
def compareMiddle (index low : Nat) (exponent : Int) : Ordering :=
  if 0 ≤ exponent then
    compare (2 * units index) ((2 * low + 1) * (unitsInOne * Nat.pow 10 exponent.toNat))
  else compare (2 * units index * Nat.pow 10 (-exponent).toNat) ((2 * low + 1) * unitsInOne)

/-- The neighbour on a decimal grid that reads back. If both do, the nearer one is taken, and of two
equally near ones the even one. -/
def readingNeighbour? (index : Nat) (exponent : Int) : Option Decimal :=
  let low := floorAt index exponent
  let below : Decimal := ⟨low, exponent⟩
  let above : Decimal := ⟨low + 1, exponent⟩
  match readsAs below index, readsAs above index with
  | true, true =>
    match compareMiddle index low exponent with
    | .lt => some below
    | .gt => some above
    | .eq => some (if low % 2 = 0 then below else above)
  | true, false => some below
  | false, true => some above
  | false, false => none

def exactDecimal (index : Nat) : Decimal :=
  ⟨units index * Nat.pow 5 unitPlaces, -(unitPlaces : Int)⟩

/-- The decimal fraction of fewest digits that reads back as a magnitude, and the nearest such. -/
def shortest (index : Nat) : Decimal :=
  let point := decimalPoint index
  ((List.range 17).findSome? fun (n : Nat) => readingNeighbour? index (point - (n + 1))).getD
    (exactDecimal index)

end ExprLang.Double
