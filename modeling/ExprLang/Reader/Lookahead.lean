import ExprLang.Precedence.Entries
import ExprLang.Token.Lexer
import ExprLang.Tree

/-! One token of lookahead over what is left of a text, and readers that move it forward. A reader
that fails leaves the lookahead at the token it failed at. -/
namespace ExprLang

/-- What a reader found missing. A caller may look for something else, in words of its own. -/
inductive Missing where
  | expression
  | closingBracket
  | argumentEnd
  | prototypeName
  | prototypeOpening
  | prototypeClosing
  | defKeyword
  | externKeyword
  | endOfInput
  | other (words : String)
  deriving DecidableEq, Repr

def Missing.words : Missing → String
  | .expression => "unknown token when expecting an expression"
  | .closingBracket => "expected ')'"
  | .argumentEnd => "expected ')' or ',' in argument list"
  | .prototypeName => "expected function name in prototype"
  | .prototypeOpening => "expected '(' in prototype"
  | .prototypeClosing => "expected ')' in prototype"
  | .defKeyword => "expected 'def'"
  | .externKeyword => "expected 'extern'"
  | .endOfInput => "unexpected token after expression"
  | .other words => words

/-- Why a text is no program. -/
inductive SyntaxError where
  | lexical (fault : LexError)
  | unexpected (missing : Missing) (got : Token)
  /-- Brackets and argument lists nest too deep, or too many operators wait for each other. -/
  | tooDeep (got : Token)
  /-- A number was taken for granted where there is none. No program leads here. -/
  | notNumber
  /-- Two strengths cannot be compared. No table leads here. -/
  | incomparable (left right : Value)
  /-- A strength that is no number has no successor. No table leads here. -/
  | noSuccessor
  deriving DecidableEq, Repr

/-- The token at which reading stopped, if the error is about one. -/
def SyntaxError.got? : SyntaxError → Option Token
  | .unexpected _ got | .tooDeep got => some got
  | _ => none

/-- The place that an error tells, if it tells one. -/
def SyntaxError.place? : SyntaxError → Option Pos
  | .lexical fault => some fault.pos
  | e => e.got?.map Token.pos

/-- Words about a token, with its place and the token itself. -/
def Token.complaint (got : Token) (words : String) : String :=
  words ++ " at " ++ got.pos.inWords ++ " (got " ++ got.text ++ ")"

def SyntaxError.message : SyntaxError → String
  | .lexical fault => fault.message
  | .unexpected missing got => got.complaint missing.words
  | .tooDeep got => got.complaint "expression nested too deeply"
  | .notNumber => ""
  | .incomparable left right =>
    "'<' not supported between instances of '" ++ left.typeName ++ "' and '" ++ right.typeName ++ "'"
  | .noSuccessor => "can only concatenate str (not \"int\") to str"

/-- The current token, the tokens and faults behind it, and the place of the end of input. -/
structure Lookahead where
  current : Token
  ahead : List Lexed
  finish : Pos
  /-- How often a token was asked for, so that reading is seen to be one pass. -/
  taken : Nat

/-- A reader either yields a value or fails, and leaves a lookahead behind in both cases. -/
abbrev Reader (α : Type) := EStateM SyntaxError Lookahead α

namespace Reader

/-- Move on to the next token. Behind the last token there is only the end of input. A fault is
passed over, so that reading may go on behind it. -/
def advance : Reader Unit := fun s =>
  let s := { s with taken := s.taken + 1 }
  match s.ahead with
  | [] => .ok () { s with current := ⟨.endOfInput, s.finish⟩ }
  | .ok token :: rest => .ok () { s with current := token, ahead := rest }
  | .error fault :: rest => .error (.lexical fault) { s with ahead := rest }

def current : Reader Token := fun s => .ok s.current s

def fail {α : Type} (missing : Missing) : Reader α := fun s =>
  .error (.unexpected missing s.current) s

/-- Give up at the current token, because too much nests. -/
def breakOff {α : Type} : Reader α := fun s => .error (.tooDeep s.current) s

/-- How many tokens and faults are left, the current one included. -/
def left : Reader Nat := fun s => .ok (s.ahead.length + 1) s

theorem bind_apply {α β : Type} (x : Reader α) (f : α → Reader β) (s : Lookahead) :
    (x >>= f) s = match x s with
      | .ok a s => f a s
      | .error e s => .error e s := by
  simp only [bind, EStateM.bind]
  cases x s <;> rfl

theorem pure_apply {α : Type} (a : α) (s : Lookahead) : (pure a : Reader α) s = .ok a s := rfl

theorem advance_token {s : Lookahead} {t : Token} {rest : List Lexed}
    (h : s.ahead = .ok t :: rest) :
    advance s = .ok () ⟨t, rest, s.finish, s.taken + 1⟩ := by
  simp [advance, h]

theorem advance_fault {s : Lookahead} {e : LexError} {rest : List Lexed}
    (h : s.ahead = .error e :: rest) :
    advance s = .error (.lexical e) ⟨s.current, rest, s.finish, s.taken + 1⟩ := by
  simp [advance, h]

theorem advance_end {s : Lookahead} (h : s.ahead = []) :
    advance s = .ok () ⟨⟨.endOfInput, s.finish⟩, [], s.finish, s.taken + 1⟩ := by
  simp [advance, h]

/-- Take the current token if it has the named type. -/
def expect (type : String) (missing : Missing) : Reader Token := do
  let token ← current
  if token.hasType type then
    advance
    return token
  else fail missing

end Reader

namespace Lookahead

/-- The lookahead at the first of some tokens. -/
def ofLexed (items : List Lexed) (finish : Pos) : Except LexError Lookahead :=
  match items with
  | [] => .ok ⟨⟨.endOfInput, finish⟩, [], finish, 1⟩
  | .ok token :: rest => .ok ⟨token, rest, finish, 1⟩
  | .error fault :: _ => .error fault

def ofCursor (c : Cursor) : Except LexError Lookahead := ofLexed (c.lexemes.map (·.1)) c.finish

def ofText (text : String) : Except LexError Lookahead := ofCursor (.ofText text .start)

end Lookahead
end ExprLang
