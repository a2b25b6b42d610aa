import ExprLang.Reader.Chain

/-! Expressions: operands joined by operators. An operand is a number, a name, a call, or an
expression in brackets. How deep brackets and argument lists may nest is up to the caller. -/
namespace ExprLang.Reader

/-- A number. -/
def number : Reader Expr := do
  let token ← current
  match token.kind with
  | .number value =>
    advance
    return .number value token.pos
  | _ => throw .notNumber

/-- An expression in brackets. Whatever the opening token is, it is passed over. -/
def bracketed (inner : Reader Expr) : Reader Expr := do
  advance
  let e ← inner
  let _ ← expect ")" .closingBracket
  return e

/-- One or more arguments with commas between them, and the closing bracket. The number bounds the
arguments. -/
def arguments (inner : Reader Expr) : Nat → Reader (List Expr)
  | 0 => return []
  | count + 1 => do
    let arg ← inner
    let token ← current
    if token.isSymbol ')' then
      advance
      return [arg]
    else if token.isSymbol ',' then
      advance
      return arg :: (← arguments inner count)
    else fail .argumentEnd

/-- A name, or a call if an opening bracket follows. Whatever the first token is, it names the
variable or the function. -/
def nameOrCall (inner : Reader Expr) : Reader Expr := do
  let token ← current
  advance
  if (← current).isSymbol '(' then
    advance
    if (← current).isSymbol ')' then
      advance
      return .call token.valueText [] token.pos
    else
      return .call token.valueText (← arguments inner (← left)) token.pos
  else return .var token.valueText token.pos

/-- An operand, given how the expressions inside of it are read. -/
def operandOver (inner : Reader Expr) : Reader Expr := do
  match (← current).kind with
  | .identifier _ => nameOrCall inner
  | .number _ => number
  | .symbol '(' => bracketed inner
  | _ => fail .expression

def expressionOver (entries : Entries) (operand : Reader Expr) : Reader Expr := do
  chain entries operand (.integer 0) (← operand)

/-- An operand whose brackets nest less deep than the given number of levels. -/
def operand (entries : Entries) : (levels : Nat) → Reader Expr
  | 0 => breakOff
  | levels + 1 => fun s => operandOver (expressionOver entries (operand entries levels)) s

def expression (entries : Entries) (levels : Nat) : Reader Expr :=
  expressionOver entries (operand entries levels)

/-- The operators and operands behind an expression, up to the first one weaker than `least`. -/
def rest (entries : Entries) (levels : Nat) (least : Value) (left : Expr) : Reader Expr :=
  chain entries (operand entries levels) least left

end ExprLang.Reader
