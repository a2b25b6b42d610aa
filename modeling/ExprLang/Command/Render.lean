import ExprLang.Precedence.Entries
import ExprLang.Reader.Program
import ExprLang.Token.Listing
import ExprLang.Tree.Document
import ExprLang.Tree.Source

/-! What is shown of a text: its tokens, or its items as JSON or as source text. -/
namespace ExprLang

/-- How deep a caller can go: the levels that brackets may nest in what is read, and the depths of
the trees that are written as source text and as JSON. The stack at hand sets them. -/
structure Limits where
  levels : Nat
  source : Nat
  json : Nat

/-- What is to be shown. -/
inductive Mode where
  | source
  | json
  | tokens
  | unknown (name : String)
  deriving DecidableEq, Repr

/-- The mode of a name. -/
def Mode.ofName (name : String) : Mode :=
  if name = "source" then .source
  else if name = "json" then .json
  else if name = "tokens" then .tokens
  else .unknown name

/-- Why nothing can be shown. -/
inductive RenderError where
  | badTable (e : TableError)
  | badSyntax (e : SyntaxError)
  | unknownMode (name : String)
  | tooDeep
  deriving DecidableEq, Repr

def RenderError.message : RenderError → String
  | .badTable e => e.message
  | .badSyntax e => e.message
  | .unknownMode name => "Unknown output mode: " ++ name
  | .tooDeep => "program nested too deeply to render"

def Limits.depth (limits : Limits) : Mode → Nat
  | .json => limits.json
  | _ => limits.source

def renderable (limit : Nat) (items : List Item) : Bool := items.all (·.depth ≤ limit)

/-- What is shown of a text. The tokens are listed without parsing, so the table does not matter to
them. An unknown mode is noticed only after parsing. -/
def render (limits : Limits) (mode : Mode) (table : Except TableError Table) (text : String) :
    Except RenderError String :=
  match mode with
  | .tokens => ((tokenize text).map listing).mapError fun e => .badSyntax (.lexical e)
  | mode => do
    let t ← table.mapError RenderError.badTable
    let items ← (parse t limits.levels text).mapError RenderError.badSyntax
    match mode with
    | .unknown name => .error (.unknownMode name)
    | mode =>
      if renderable (limits.depth mode) items then
        .ok (if mode = .json then jsonOf items else sourceOf items)
      else .error .tooDeep

end ExprLang
