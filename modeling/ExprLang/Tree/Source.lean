import ExprLang.Number.Text
import ExprLang.Text.Joined
import ExprLang.Tree

/-! Trees written back as source text, with brackets around every operator. -/
namespace ExprLang

namespace Expr

mutual

/-- The text of an expression. -/
def source : Expr → String
  | .number value _ => value.plainText
  | .var name _ => name
  | .binary operator left right _ =>
    "(" ++ left.source ++ " " ++ operator ++ " " ++ right.source ++ ")"
  | .call callee args _ => callee ++ "(" ++ Text.joined ", " (argSources args) ++ ")"

def argSources : List Expr → List String
  | [] => []
  | arg :: rest => arg.source :: argSources rest

end

end Expr

def prototypeText (name : String) (params : List String) : String :=
  name ++ "(" ++ Text.joined " " params ++ ")"

def Prototype.source (p : Prototype) : String := prototypeText p.name p.params

/-- The text of a function. An anonymous one is written as its body alone. -/
def Function.source (f : Function) : String :=
  if f.proto.name = anonymousName then f.body.source
  else "def " ++ f.proto.source ++ " " ++ f.body.source

def Item.source : Item → String
  | .external proto => "extern " ++ proto.source
  | .function f => f.source

def sourceOf (items : List Item) : String := Text.joined "\n" (items.map Item.source)

end ExprLang
