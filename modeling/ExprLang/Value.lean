import ExprLang.Number.Nearest
import ExprLang.Number.Text
import ExprLang.Text.Quoted

/-! Values of any simple type, as a caller may hand them to a precedence table or a token label. -/
namespace ExprLang

/-- A text, a whole number, a truth value, a number in double precision, or nothing. -/
inductive Value where
  | text (s : String)
  | integer (n : Int)
  | truth (b : Bool)
  | real (x : Double)
  | absent
  deriving DecidableEq, Repr

namespace Value

/-- A value as it is printed. -/
def shown : Value → String
  | .text s => s
  | .integer n => toString n
  | .truth b => if b then "True" else "False"
  | .real x => x.text
  | .absent => "None"

/-- A value as messages name it: a text is quoted. -/
def quoted : Value → String
  | .text s => Text.quoted s
  | v => v.shown

/-- The type of a value, as messages name it. -/
def typeName : Value → String
  | .text _ => "str"
  | .integer _ => "int"
  | .truth _ => "bool"
  | .real _ => "float"
  | .absent => "NoneType"

/-- The whole number that a value counts as. A truth value counts as 0 or 1. -/
def whole? : Value → Option Int
  | .integer n => some n
  | .truth b => some (if b then 1 else 0)
  | _ => none

/-- Equality of values. Numbers are equal by their size, whatever their type. -/
def same : Value → Value → Bool
  | .text s, .text t => s == t
  | .absent, .absent => true
  | .real x, .real y => x.same y
  | .real x, v => v.whole?.any x.sameInteger
  | v, .real x => v.whole?.any x.sameInteger
  | v, w => v.whole?.isSome && v.whole? == w.whole?

/-- The order of values. Two texts can be compared, and two numbers of any types, but nothing
else. -/
def less? : Value → Value → Option Bool
  | .text s, .text t => some (s < t)
  | .real x, .real y => some (x.less y)
  | .real x, v => v.whole?.map x.lessInteger
  | v, .real x => v.whole?.map x.exceedsInteger
  | v, w => do return (← v.whole?) < (← w.whole?)

/-- A value is less than another. Values that cannot be compared are not. -/
def less (v w : Value) : Bool := (v.less? w).getD false

/-- A number and one more. -/
def successor? : Value → Option Value
  | .integer n => some (.integer (n + 1))
  | .truth b => some (.integer (if b then 2 else 1))
  | .real x => some (.real x.plusOne)
  | _ => none

/-- A number and one more. A value that is no number stays as it is. -/
def successor (v : Value) : Value := v.successor?.getD v

theorem same_text (s t : String) : (text s).same (text t) = (s == t) := rfl

end Value
end ExprLang
