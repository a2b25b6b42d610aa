import ExprLang.Reader.Lookahead

/-! Chains of operators and operands, and the trees that they fold into by the strengths of their
operators. -/
namespace ExprLang

/-- An operator token and the operand behind it. -/
abbrev Link := Token × Expr

def joinLink (left : Expr) (operator : Token) (right : Expr) : Expr :=
  .binary operator.kind.typeName left right operator.pos

/-- Fold the links onto `left` up to the first operator that is weaker than `least`. An operand
first takes all links behind it that are stronger than the operator before it. The number bounds the
links. -/
def climb (strength : Token → Value) : Nat → Value → Expr → List Link → Expr × List Link
  | 0, _, left, links => (left, links)
  | _ + 1, _, left, [] => (left, [])
  | count + 1, least, left, (operator, operand) :: rest =>
    if (strength operator).less least then (left, (operator, operand) :: rest)
    else
      let (right, rest) :=
        if rest.head?.any fun next => (strength operator).less (strength next.1) then
          climb strength count (strength operator).successor operand rest
        else (operand, rest)
      climb strength count least (joinLink left operator right) rest

def foldChain (strength : Token → Value) (least : Value) (left : Expr) (links : List Link) : Expr :=
  (climb strength links.length least left links).1

namespace Reader

def isWeaker (s t : Value) : Reader Bool :=
  match s.less? t with
  | some answer => return answer
  | none => throw (.incomparable s t)

/-- Compare the strength of the operator before an operand, if there is one, with that behind it.
If the latter is stronger, the operand belongs to it and to all that are stronger than the former by
one, so there has to be such a strength. -/
def compareAcross (before : Option Value) (behind : Value) : Reader Unit :=
  match before with
  | none => return ()
  | some before => do
    if ← isWeaker before behind then
      if before.successor?.isNone then throw .noSuccessor

/-- Read links up to the first token that is weaker than `least`. The number bounds the links. -/
def links (entries : Entries) (operand : Reader Expr) (least : Value) :
    Option Value → Nat → Reader (List Link)
  | _, 0 => return []
  | before, count + 1 => do
    let operator ← current
    let strength := entries.strength operator
    compareAcross before strength
    if ← isWeaker strength least then return []
    else
      advance
      let right ← operand
      return (operator, right) :: (← links entries operand least (some strength) count)

/-- Read the links behind an expression and fold them onto it. -/
def chain (entries : Entries) (operand : Reader Expr) (least : Value) (first : Expr) :
    Reader Expr := do
  let found ← links entries operand least none (← left)
  return foldChain entries.strength least first found

theorem isWeaker_integer (m n : Int) :
    isWeaker (.integer m) (.integer n) = return decide (m < n) := rfl

/-- Whole strengths can always be compared. -/
theorem compareAcross_integer (m n : Int) :
    compareAcross (some (.integer m)) (.integer n) = return () := by
  funext s
  simp only [compareAcross, isWeaker_integer, bind_apply, pure_apply]
  cases decide (m < n) <;> rfl

end Reader
end ExprLang
