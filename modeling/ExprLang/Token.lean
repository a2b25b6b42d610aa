import ExprLang.Position
import ExprLang.Value

/-! Tokens, and the labels under which they are shown. -/
namespace ExprLang

/-- What a token is. An operator or bracket is a symbol of one character. -/
inductive TokenKind where
  | defKeyword
  | externKeyword
  | identifier (name : String)
  | number (value : Double)
  | symbol (char : Char)
  | endOfInput
  deriving DecidableEq, Repr

/-- A token and the place of its first character. -/
structure Token where
  kind : TokenKind
  pos : Pos
  deriving DecidableEq, Repr

namespace TokenKind

/-- The name of a kind. A symbol names itself. -/
def typeName : TokenKind → String
  | .defKeyword => "DEF"
  | .externKeyword => "EXTERN"
  | .identifier _ => "IDENT"
  | .number _ => "NUMBER"
  | .symbol c => String.singleton c
  | .endOfInput => "EOF"

/-- What a token of a kind stands for: a number, or the text of the token. -/
def value : TokenKind → Value
  | .defKeyword => .text "def"
  | .externKeyword => .text "extern"
  | .identifier name => .text name
  | .number x => .real x
  | .symbol c => .text (String.singleton c)
  | .endOfInput => .text "EOF"

end TokenKind

/-- The form in which a token is shown and compared. Any type name and value may stand in it. -/
structure Label where
  type : String
  value : Value
  pos : Pos
  deriving DecidableEq, Repr

namespace Label

def text (l : Label) : String := "Token(" ++ l.type ++ ", " ++ l.value.shown ++ ")"

/-- Labels are equal if they agree in type, value and place. -/
def same (l m : Label) : Bool := l.type == m.type && l.value.same m.value && l.pos == m.pos

end Label

namespace Token

def label (t : Token) : Label := ⟨t.kind.typeName, t.kind.value, t.pos⟩

def text (t : Token) : String := t.label.text

def valueText (t : Token) : String := t.kind.value.shown

/-- A token is of the named type; a symbol's type is its character. -/
def hasType (t : Token) (type : String) : Bool := t.kind.typeName == type

def isSymbol (t : Token) (c : Char) : Bool := t.kind == .symbol c

end Token
end ExprLang
