import ExprLang.Reader.Expression

/-! Prototypes, definitions, declarations and whole programs. The readers take the strengths of any
proposal; a program is read with those of a table. The levels are those that brackets may nest. -/
namespace ExprLang

namespace Reader

/-- Identifiers as long as there are any. The number bounds them. -/
def parameters : Nat → Reader (List String)
  | 0 => return []
  | count + 1 => do
    match (← current).kind with
    | .identifier name =>
      advance
      return name :: (← parameters count)
    | _ => return []

/-- A name and its parameters in brackets. -/
def prototype : Reader Prototype := do
  let token ← current
  match token.kind with
  | .identifier name =>
    advance
    let _ ← expect "(" .prototypeOpening
    let params ← parameters (← left)
    let _ ← expect ")" .prototypeClosing
    return ⟨name, params, token.pos⟩
  | _ => fail .prototypeName

/-- A function defined by a prototype and a body. -/
def definition (entries : Entries) (levels : Nat) : Reader Function := do
  let token ← current
  match token.kind with
  | .defKeyword =>
    advance
    let proto ← prototype
    let body ← expression entries levels
    return ⟨proto, body, token.pos⟩
  | _ => fail .defKeyword

/-- A prototype declared as external. -/
def declaration : Reader Prototype := do
  match (← current).kind with
  | .externKeyword =>
    advance
    prototype
  | _ => fail .externKeyword

def topExpression (entries : Entries) (levels : Nat) : Reader Function := do
  let token ← current
  return .anonymous (← expression entries levels) token.pos

/-- One item of a program. -/
def item (entries : Entries) (levels : Nat) : Reader Item := do
  match (← current).kind with
  | .defKeyword => return .function (← definition entries levels)
  | .externKeyword => return .external (← declaration)
  | _ => return .function (← topExpression entries levels)

end Reader

/-- How far a program was read: the items found, and the error that ended it, if one did. -/
structure Progress where
  items : List Item
  error : Option SyntaxError
  state : Lookahead

namespace Progress

def withItem (item : Item) (p : Progress) : Progress := { p with items := item :: p.items }

def result (p : Progress) : Except SyntaxError (List Item) :=
  match p.error with
  | none => .ok p.items
  | some e => .error e

/-- Read items up to the end of input or the first error. Semicolons between items are passed over.
The count bounds the items and semicolons. -/
def within (entries : Entries) (levels : Nat) : (count : Nat) → Lookahead → Progress
  | 0, s => ⟨[], none, s⟩
  | count + 1, s =>
    if s.current.kind = .endOfInput then ⟨[], none, s⟩
    else if s.current.isSymbol ';' then
      match Reader.advance s with
      | .ok _ s => within entries levels count s
      | .error e s => ⟨[], some e, s⟩
    else
      match Reader.item entries levels s with
      | .ok item s => (within entries levels count s).withItem item
      | .error e s => ⟨[], some e, s⟩

def ofLookahead (entries : Entries) (levels : Nat) (s : Lookahead) : Progress :=
  within entries levels (s.ahead.length + 1) s

end Progress

/-- All items up to the end of input. -/
def Reader.program (entries : Entries) (levels : Nat) : Reader (List Item) := fun s =>
  let p := Progress.ofLookahead entries levels s
  match p.error with
  | none => .ok p.items p.state
  | some e => .error e p.state

def begin? (text : String) : Except SyntaxError Lookahead :=
  (Lookahead.ofText text).mapError .lexical

/-- The items of a program. -/
def parse (t : Table) (levels : Nat) (text : String) : Except SyntaxError (List Item) := do
  (Progress.ofLookahead (.ofTable t) levels (← begin? text)).result

/-- One expression that takes up a whole text. -/
def parseExpression (t : Table) (levels : Nat) (text : String) : Except SyntaxError Expr := do
  match Reader.expression (.ofTable t) levels (← begin? text) with
  | .error e _ => .error e
  | .ok e s =>
    if s.current.kind = .endOfInput then .ok e
    else .error (.unexpected .endOfInput s.current)

end ExprLang
