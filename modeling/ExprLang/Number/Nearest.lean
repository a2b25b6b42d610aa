import ExprLang.Number.Double

/-! The double nearest to a fraction, found by bisection over the numbered magnitudes. A tie goes to
the neighbour of even index. -/
namespace ExprLang.Double

/-- The fraction `num / den` rounds to the magnitude `index` or to a larger one: it lies above the
middle between `index` and its predecessor, or on it with `index` even. -/
def reaches (num den index : Nat) : Bool :=
  match index with
  | 0 => true
  | below + 1 =>
    let value := 2 * num * unitsInOne
    let middle := den * (units below + units (below + 1))
    middle < value || (middle == value && (below + 1) % 2 == 0)

/-- The largest number below `base + 2 ^ bits` that satisfies a downward closed property which holds
of `base`, found from the highest bit down. -/
def bisect (holds : Nat → Bool) : (bits base : Nat) → Nat
  | 0, base => base
  | bits + 1, base =>
    let middle := base + Nat.pow 2 bits
    if holds middle then bisect holds bits middle else bisect holds bits base

def nearestIndex (num den : Nat) : Nat := bisect (reaches num den) 63 0

def nearest (negative : Bool) (num den : Nat) : Double := ofIndex negative (nearestIndex num den)

/-- The number nearest to a number and one more. -/
def plusOne : Double → Double
  | .finite negative index =>
    let sum := scaled negative index + unitsInOne
    nearest (decide (sum < 0)) sum.natAbs unitsInOne
  | x => x

end ExprLang.Double
