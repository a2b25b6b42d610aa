import ExprLang.Tree.Node
import ExprLang.Tree.Source

/-! The source text of nodes that need not be well formed, and the faults that are found on the
way. -/
namespace ExprLang

namespace Node

mutual

/-- The text of a node in the place of an expression. Faults are looked for from left to right. -/
def exprSource : Node → Except NodeError String
  | .number value _ => .ok value.plainText
  | .var name _ => .ok name
  | .binary operator left right _ => do
    let l ← exprSource left
    let r ← exprSource right
    return "(" ++ l ++ " " ++ operator ++ " " ++ r ++ ")"
  | .call callee args _ => do
    return callee ++ "(" ++ Text.joined ", " (← argSources args) ++ ")"
  | .prototype proto => .error (.notExpression (.prototype proto))
  | .function proto body pos => .error (.notExpression (.function proto body pos))
  | .foreign text => .error (.notExpression (.foreign text))

def argSources : List Node → Except NodeError (List String)
  | [] => .ok []
  | arg :: rest => do
    let text ← exprSource arg
    return text :: (← argSources rest)

end

def numberSource : Node → Except NodeError String
  | .number value _ => .ok value.plainText
  | node => .error (.noField node "value")

def binarySource : Node → Except NodeError String
  | .binary operator left right pos => exprSource (.binary operator left right pos)
  | node => .error (.noField node "lhs")

def callSource : Node → Except NodeError String
  | .call callee args pos => exprSource (.call callee args pos)
  | node => .error (.noField node "args")

/-- The text of a node as a prototype. Its name is looked for first. -/
def prototypeSource (node : Node) : Except NodeError String := do
  let name ← node.name
  return prototypeText name (← node.params)

/-- The text of a node as a function. No text reads as an anonymous function with parameters. The
name of the prototype is looked for before the body, and its parameters after it. -/
def functionSource : Node → Except NodeError String
  | .function proto body pos => do
    if (← proto.name) = anonymousName then
      if (← proto.params).isEmpty then exprSource body
      else throw (.anonymousParams (.function proto body pos))
    else
      let text ← exprSource body
      return "def " ++ (← proto.prototypeSource) ++ " " ++ text
  | node => .error (.noField node "proto")

/-- The text of a node as an item of a program. -/
def itemSource : Node → Except NodeError String
  | .function proto body pos => functionSource (.function proto body pos)
  | .prototype proto => .ok ("extern " ++ proto.source)
  | node => exprSource node

mutual

/-- An expression has no fault, and its text is the same as a node. -/
theorem exprSource_toNode : (e : Expr) → e.toNode.exprSource = .ok e.source
  | .number _ _ | .var _ _ => rfl
  | .binary _ left right _ => by
    simp only [Expr.toNode, exprSource, Expr.source, exprSource_toNode left,
      exprSource_toNode right]
    rfl
  | .call _ args _ => by
    simp only [Expr.toNode, exprSource, Expr.source, argSources_toNodes args]
    rfl

theorem argSources_toNodes : (es : List Expr) → argSources (Expr.toNodes es) =
    .ok (Expr.argSources es)
  | [] => rfl
  | arg :: rest => by
    simp only [Expr.toNodes, argSources, Expr.argSources, exprSource_toNode arg,
      argSources_toNodes rest]
    rfl

end

theorem prototypeSource_prototype (proto : Prototype) :
    (Node.prototype proto).prototypeSource = .ok proto.source := rfl

/-- An item has no fault unless it is an anonymous function with parameters. -/
theorem itemSource_toNode (item : Item)
    (h : ∀ f, item = .function f → f.proto.name = anonymousName → f.proto.params = []) :
    item.toNode.itemSource = .ok item.source := by
  cases item with
  | external proto => rfl
  | function f =>
    have hp := h f rfl
    by_cases hn : f.proto.name = anonymousName
    · simp [Item.toNode, itemSource, functionSource, name, params, Item.source, Function.source, hn,
        hp hn, exprSource_toNode, bind, Except.bind]
    · simp [Item.toNode, itemSource, functionSource, name, Item.source, Function.source, hn,
        exprSource_toNode, prototypeSource_prototype, bind, Except.bind, pure, Except.pure]

end Node

/-- The lines emitted so far. -/
structure Emitter where
  lines : List String
  deriving DecidableEq, Repr

namespace Emitter

def empty : Emitter := ⟨[]⟩

/-- Emit a node as the next line. A node without a text leaves the lines as they are. -/
def emit (e : Emitter) (node : Node) : Except NodeError String × Emitter :=
  match node.itemSource with
  | .ok text => (.ok text, ⟨e.lines ++ [text]⟩)
  | .error fault => (.error fault, e)

def output (e : Emitter) : String := Text.joined "\n" e.lines

/-- Emit nodes up to the first faulty one. -/
def emitAll (e : Emitter) : List Node → Except NodeError Emitter
  | [] => .ok e
  | node :: rest =>
    match e.emit node with
    | (.ok _, e) => e.emitAll rest
    | (.error fault, _) => .error fault

end Emitter
end ExprLang
