import ExprLang.Position
import ExprLang.Number.Double

/-! Syntax trees: expressions, prototypes, functions and the items of a program. -/
namespace ExprLang

/-- An expression. Every node has the place it was read at. -/
inductive Expr where
  | number (value : Double) (pos : Pos)
  | var (name : String) (pos : Pos)
  | binary (operator : String) (left right : Expr) (pos : Pos)
  | call (callee : String) (args : List Expr) (pos : Pos)
  deriving Repr

/-- The name and the parameter names of a function. -/
structure Prototype where
  name : String
  params : List String
  pos : Pos
  deriving DecidableEq, Repr

/-- A prototype with a body. -/
structure Function where
  proto : Prototype
  body : Expr
  pos : Pos
  deriving Repr

/-- An item of a program: a declaration of a function defined elsewhere, or a function. -/
inductive Item where
  | external (proto : Prototype)
  | function (f : Function)
  deriving Repr

/-- The name of the function that an expression outside of all functions becomes the body of. -/
def anonymousName : String := "__anon_expr"

/-- The function that an expression outside of all functions becomes the body of. -/
def Function.anonymous (body : Expr) (pos : Pos) : Function := ⟨⟨anonymousName, [], pos⟩, body, pos⟩

namespace Expr

mutual

/-- The number of nodes on the longest way down. -/
def depth : Expr → Nat
  | .number _ _ | .var _ _ => 1
  | .binary _ left right _ => max left.depth right.depth + 1
  | .call _ args _ => argsDepth args + 1

def argsDepth : List Expr → Nat
  | [] => 0
  | arg :: rest => max arg.depth (argsDepth rest)

end

end Expr

/-- The number of nodes on the longest way down the body. -/
def Item.depth : Item → Nat
  | .external _ => 0
  | .function f => f.body.depth

def externalDescription : String := "Parsed an extern."

def functionDescription (name : String) : String :=
  if name = anonymousName then "Parsed a top-level expr." else "Parsed a function definition."

/-- What is said of an item that has been read. -/
def Item.description : Item → String
  | .external _ => externalDescription
  | .function f => functionDescription f.proto.name

end ExprLang
