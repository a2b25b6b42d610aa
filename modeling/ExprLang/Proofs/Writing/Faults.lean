import ExprLang.Tree.Emitter

/-! Nodes of any make are emitted one after the other. A node has a text unless something stands in
the place of an expression that is none, and a node without a text leaves nothing behind. -/
namespace ExprLang

variable {ε α β : Type}

/-- The error of an outcome, if it is one. -/
def faultOf : Except ε α → Option ε
  | .ok _ => none
  | .error e => some e

private theorem faultOf_bind {x : Except ε α} {f : α → Except ε β} {second : Option ε}
    (hf : ∀ a, faultOf (f a) = second) : faultOf (x >>= f) = (faultOf x).or second := by
  cases x with
  | ok a => exact hf a
  | error e => rfl

private theorem faultOf_bind_pure (x : Except ε α) (f : α → β) :
    faultOf (x >>= fun a => pure (f a)) = faultOf x := by
  cases x <;> rfl

namespace Node

mutual

/-- All that stands in the place of an expression inside of a node, in the order of the text. Each
object stands in front of those inside of it. -/
def places : Node → List Node
  | .number _ _ | .var _ _ | .prototype _ | .foreign _ => []
  | .binary _ left right _ => (left :: left.places) ++ (right :: right.places)
  | .call _ args _ => argPlaces args
  | .function _ body _ => body :: body.places

def argPlaces : List Node → List Node
  | [] => []
  | arg :: rest => (arg :: arg.places) ++ argPlaces rest

end

def firstFault (objects : List Node) : Option NodeError :=
  (objects.find? fun object => !object.isExpr).map .notExpression

private theorem firstFault_append (objects others : List Node) :
    firstFault (objects ++ others) = (firstFault objects).or (firstFault others) := by
  rw [firstFault, List.find?_append, Option.map_or]
  rfl

private theorem firstFault_cons_of_isExpr {node : Node} (h : node.isExpr = true)
    (objects : List Node) :
    firstFault (node :: objects) = firstFault objects := by
  simp [firstFault, h]

private theorem firstFault_cons_of_not {node : Node} (h : node.isExpr = false)
    (objects : List Node) :
    firstFault (node :: objects) = some (.notExpression node) := by
  simp [firstFault, h]

mutual

private theorem fault_exprSource : (node : Node) →
    faultOf node.exprSource = firstFault (node :: node.places)
  | .number _ _ | .var _ _ => rfl
  | .prototype _ | .function .. | .foreign _ => by
    rw [firstFault_cons_of_not rfl]
    rfl
  | .binary _ left right _ => by
    rw [firstFault_cons_of_isExpr rfl, places, firstFault_append, ← fault_exprSource left,
      ← fault_exprSource right, exprSource]
    exact faultOf_bind fun _ => faultOf_bind_pure _ _
  | .call _ args _ => by
    rw [firstFault_cons_of_isExpr rfl, places, ← fault_argSources args, exprSource]
    exact faultOf_bind_pure _ _

private theorem fault_argSources : (args : List Node) →
    faultOf (argSources args) = firstFault (argPlaces args)
  | [] => rfl
  | arg :: rest => by
    rw [argPlaces, firstFault_append, ← fault_exprSource arg, ← fault_argSources rest, argSources]
    exact faultOf_bind fun _ => faultOf_bind_pure _ _

end

end Node

namespace Emitter

end Emitter

end ExprLang
