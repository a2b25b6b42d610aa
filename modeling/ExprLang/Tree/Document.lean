import ExprLang.Number.Text
import ExprLang.Text.Joined
import ExprLang.Text.Quoted
import ExprLang.Tree.Node

/-! Trees as documents of records and lists, and documents written as JSON. -/
namespace ExprLang

/-- A document. The fields of a record have an order. -/
inductive Document where
  | text (s : String)
  | integer (n : Int)
  | real (x : Double)
  | list (items : List Document)
  | record (fields : List (String × Document))

namespace Document

def unitEscape (n : Nat) : List Char := '\\' :: 'u' :: Text.hexDigits 4 n

/-- A character inside of a JSON string. Only the printed characters of ASCII are written as they
are, and a character past the 16-bit range becomes two surrogate units. -/
def escapedChar (c : Char) : List Char :=
  if c = '"' then ['\\', '"']
  else if c = '\\' then ['\\', '\\']
  else if c = '\n' then ['\\', 'n']
  else if c = '\r' then ['\\', 'r']
  else if c = '\t' then ['\\', 't']
  else if c = '\x08' then ['\\', 'b']
  else if c = '\x0c' then ['\\', 'f']
  else if 0x20 ≤ c.toNat && c.toNat < 0x7f then [c]
  else if c.toNat < 0x10000 then unitEscape c.toNat
  else
    unitEscape (0xD800 + (c.toNat - 0x10000) / 0x400) ++
      unitEscape (0xDC00 + (c.toNat - 0x10000) % 0x400)

def stringText (s : String) : String :=
  String.ofList ('"' :: s.toList.flatMap escapedChar ++ ['"'])

def newLine (level : Nat) : String := String.ofList ('\n' :: List.replicate (2 * level) ' ')

/-- Items on lines of their own between brackets. Without items, the brackets stand together. -/
def bracketed (opening closing : String) (level : Nat) : List String → String
  | [] => opening ++ closing
  | items =>
    opening ++ newLine (level + 1) ++ Text.joined ("," ++ newLine (level + 1)) items ++
      newLine level ++ closing

mutual

/-- A document as JSON, at the given depth. -/
def json (level : Nat) : Document → String
  | .text s => stringText s
  | .integer n => toString n
  | .real x => x.text
  | .list items => bracketed "[" "]" level (jsonItems (level + 1) items)
  | .record fields => bracketed "\x7b" "\x7d" level (jsonFields (level + 1) fields)

def jsonItems (level : Nat) : List Document → List String
  | [] => []
  | item :: rest => json level item :: jsonItems level rest

def jsonFields (level : Nat) : List (String × Document) → List String
  | [] => []
  | (name, value) :: rest => (stringText name ++ ": " ++ json level value) :: jsonFields level rest

end

end Document

def Pos.fields (pos : Pos) : List (String × Document) :=
  [("line", .integer pos.line), ("col", .integer pos.column)]

namespace Document

def ofNumber (value : Double) (pos : Pos) : Document :=
  .record ([("kind", .text "number"), ("value", .real value)] ++ pos.fields)

def ofVar (name : String) (pos : Pos) : Document :=
  .record ([("kind", .text "variable"), ("name", .text name)] ++ pos.fields)

/-- The document of an operator between the documents of its operands. -/
def ofBinary (operator : String) (left right : Document) (pos : Pos) : Document :=
  .record ([("kind", .text "binary"), ("op", .text operator), ("lhs", left), ("rhs", right)] ++
    pos.fields)

def ofCall (callee : String) (args : List Document) (pos : Pos) : Document :=
  .record ([("kind", .text "call"), ("callee", .text callee), ("args", .list args)] ++ pos.fields)

/-- The document of a function, with the documents of its prototype and body. -/
def ofFunction (proto body : Document) (pos : Pos) : Document :=
  .record ([("kind", .text "function"), ("proto", proto), ("body", body)] ++ pos.fields)

end Document

def Prototype.document (p : Prototype) : Document :=
  .record ([("kind", .text "prototype"), ("name", .text p.name),
    ("params", .list (p.params.map Document.text))] ++ p.pos.fields)

namespace Expr

mutual

/-- An expression as a document. -/
def document : Expr → Document
  | .number value pos => .ofNumber value pos
  | .var name pos => .ofVar name pos
  | .binary operator left right pos => .ofBinary operator left.document right.document pos
  | .call callee args pos => .ofCall callee (argDocuments args) pos

def argDocuments : List Expr → List Document
  | [] => []
  | arg :: rest => arg.document :: argDocuments rest

end

end Expr

def Function.document (f : Function) : Document :=
  .ofFunction f.proto.document f.body.document f.pos

def Item.document : Item → Document
  | .external proto => proto.document
  | .function f => f.document

namespace Node

mutual

/-- A node as a document. An object that is no node has none. -/
def document : Node → Except NodeError Document
  | .number value pos => .ok (.ofNumber value pos)
  | .var name pos => .ok (.ofVar name pos)
  | .binary operator left right pos => do
    let l ← left.document
    return .ofBinary operator l (← right.document) pos
  | .call callee args pos => do return .ofCall callee (← argDocuments args) pos
  | .prototype proto => .ok proto.document
  | .function proto body pos => do
    let p ← proto.document
    return .ofFunction p (← body.document) pos
  | .foreign text => .error (.noField (.foreign text) "to_dict")

def argDocuments : List Node → Except NodeError (List Document)
  | [] => .ok []
  | arg :: rest => do
    let first ← arg.document
    return first :: (← argDocuments rest)

end

mutual

/-- An expression has the same document as a node. -/
theorem document_toNode : (e : Expr) → e.toNode.document = .ok e.document
  | .number _ _ | .var _ _ => rfl
  | .binary _ left right _ => by
    simp only [Expr.toNode, document, Expr.document, document_toNode left, document_toNode right]
    rfl
  | .call _ args _ => by
    simp only [Expr.toNode, document, Expr.document, argDocuments_toNodes args]
    rfl

theorem argDocuments_toNodes : (es : List Expr) → argDocuments (Expr.toNodes es) =
    .ok (Expr.argDocuments es)
  | [] => rfl
  | arg :: rest => by
    simp only [Expr.toNodes, argDocuments, Expr.argDocuments, document_toNode arg,
      argDocuments_toNodes rest]
    rfl

end

end Node

def jsonOf (items : List Item) : String := (Document.list (items.map Item.document)).json 0

end ExprLang
