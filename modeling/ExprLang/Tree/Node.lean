import ExprLang.Number.Text
import ExprLang.Text.Joined
import ExprLang.Text.Quoted
import ExprLang.Tree

/-! Trees as a caller may build them: any node may stand where an expression or a prototype belongs,
and so may an object that is no node at all. -/
namespace ExprLang

/-- A node of any kind, or an object in the place of one. -/
inductive Node where
  | number (value : Double) (pos : Pos)
  | var (name : String) (pos : Pos)
  | binary (operator : String) (left right : Node) (pos : Pos)
  | call (callee : String) (args : List Node) (pos : Pos)
  | prototype (proto : Prototype)
  | function (proto body : Node) (pos : Pos)
  /-- A text, or nothing, in the place of a node. -/
  | foreign (text : Option String)
  deriving Repr

mutual

/-- An expression as a node. -/
def Expr.toNode : Expr → Node
  | .number value pos => .number value pos
  | .var name pos => .var name pos
  | .binary operator left right pos => .binary operator left.toNode right.toNode pos
  | .call callee args pos => .call callee (Expr.toNodes args) pos

def Expr.toNodes : List Expr → List Node
  | [] => []
  | arg :: rest => arg.toNode :: Expr.toNodes rest

end

def Item.toNode : Item → Node
  | .external proto => .prototype proto
  | .function f => .function (.prototype f.proto) f.body.toNode f.pos

namespace Node

def isExpr : Node → Bool
  | .number .. | .var .. | .binary .. | .call .. => true
  | _ => false

mutual

/-- The same tree, whatever the places of its nodes. Numbers are compared by value. -/
def same : Node → Node → Bool
  | .number x _, .number y _ => x.same y
  | .var s _, .var t _ => s == t
  | .binary o l r _, .binary o' l' r' _ => o == o' && same l l' && same r r'
  | .call f as _, .call g bs _ => f == g && sameAll as bs
  | .prototype p, .prototype q => p.name == q.name && p.params == q.params
  | .function p b _, .function q c _ => same p q && same b c
  | .foreign s, .foreign t => s == t
  | _, _ => false

def sameAll : List Node → List Node → Bool
  | [], [] => true
  | a :: as, b :: bs => same a b && sameAll as bs
  | _, _ => false

end

/-- The end of a record: the place of the node. -/
def placeFields (pos : Pos) : String :=
  "line=" ++ toString pos.line ++ ", col=" ++ toString pos.column ++ ")"

/-- A list of fixed length. A list of one has a comma behind it. -/
def tupleText : List String → String
  | [only] => "(" ++ only ++ ",)"
  | parts => "(" ++ Text.joined ", " parts ++ ")"

def protoRecord (p : Prototype) : String :=
  "Prototype(name=" ++ Text.quoted p.name ++ ", params=" ++ tupleText (p.params.map Text.quoted) ++
    ", " ++ placeFields p.pos

mutual

/-- A node field by field, as error messages show it. -/
def record : Node → String
  | .number value pos => "NumberExpr(value=" ++ value.text ++ ", " ++ placeFields pos
  | .var name pos => "VariableExpr(name=" ++ Text.quoted name ++ ", " ++ placeFields pos
  | .binary operator left right pos =>
    "BinaryExpr(op=" ++ Text.quoted operator ++ ", lhs=" ++ record left ++ ", rhs=" ++
      record right ++ ", " ++ placeFields pos
  | .call callee args pos =>
    "CallExpr(callee=" ++ Text.quoted callee ++ ", args=" ++ tupleText (records args) ++ ", " ++
      placeFields pos
  | .prototype proto => protoRecord proto
  | .function proto body pos =>
    "Function(proto=" ++ record proto ++ ", body=" ++ record body ++ ", " ++ placeFields pos
  | .foreign (some text) => Text.quoted text
  | .foreign none => "None"

def records : List Node → List String
  | [] => []
  | node :: rest => record node :: records rest

end

/-- The type of a node, as messages name it. -/
def typeName : Node → String
  | .number .. => "NumberExpr"
  | .var .. => "VariableExpr"
  | .binary .. => "BinaryExpr"
  | .call .. => "CallExpr"
  | .prototype _ => "Prototype"
  | .function .. => "Function"
  | .foreign (some _) => "str"
  | .foreign none => "NoneType"

/-- What is reported when a field of a node is set: nodes do not change. -/
def frozenMessage (field : String) : String := "cannot assign to field " ++ Text.quoted field

end Node

/-- Why something cannot be told of a node. -/
inductive NodeError where
  | notExpression (node : Node)
  | anonymousParams (node : Node)
  /-- The node has no field of that name. -/
  | noField (node : Node) (field : String)
  deriving Repr

def NodeError.message : NodeError → String
  | .notExpression node => "SourceEmitter: not an expression node: " ++ node.record
  | .anonymousParams node =>
    "SourceEmitter: " ++ anonymousName ++ " cannot take parameters: " ++ node.record
  | .noField node field => "'" ++ node.typeName ++ "' object has no attribute '" ++ field ++ "'"

namespace Node

/-- The name of a node that has one: a variable or a prototype. -/
def name : Node → Except NodeError String
  | .var name _ => .ok name
  | .prototype proto => .ok proto.name
  | node => .error (.noField node "name")

/-- The parameters of a node that has some. Only a prototype does. -/
def params : Node → Except NodeError (List String)
  | .prototype proto => .ok proto.params
  | node => .error (.noField node "params")

/-- What is said of a node that has been read as an item of a program. -/
def description : Node → Except NodeError String
  | .prototype _ => .ok externalDescription
  | .function proto _ _ => proto.name.map functionDescription
  | node => .error (.noField node "proto")

theorem description_toNode (item : Item) : item.toNode.description = .ok item.description := by
  cases item <;> rfl

end Node

/-- The same program, whatever the places of its nodes. -/
def sameProgram (as bs : List Item) : Bool := Node.sameAll (as.map Item.toNode) (bs.map Item.toNode)

end ExprLang
