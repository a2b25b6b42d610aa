/-! Sets of characters, given as sorted lists of closed ranges of code points. -/
namespace ExprLang.Text

/-- Membership in a sorted list of ranges. The search stops at the first range above `n`. -/
def covers : List (Nat × Nat) → Nat → Bool
  | [], _ => false
  | (low, high) :: rest, n => if n < low then false else n ≤ high || covers rest n

end ExprLang.Text
