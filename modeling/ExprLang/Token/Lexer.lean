import ExprLang.Text.Numeric
import ExprLang.Token
import ExprLang.Token.Cursor

/-! Tokens read from a text. Every token is as long as it can be: a word is a letter and all word
characters behind it, a number takes all digits and points, and every other character that is no
white space and begins no comment is a symbol. -/
namespace ExprLang

/-- Why the characters of a number are no number. -/
inductive LexFault where
  | malformed (literal : String)
  | outOfRange
  deriving DecidableEq, Repr

/-- A faulty number and the place of its first character. -/
structure LexError where
  fault : LexFault
  pos : Pos
  deriving DecidableEq, Repr

def LexError.message (e : LexError) : String :=
  match e.fault with
  | .malformed literal =>
    "Invalid number literal " ++ Text.quoted literal ++ " at " ++ e.pos.inWords
  | .outOfRange => "Number literal out of range at " ++ e.pos.inWords

/-- What stands at one place of a text: a token or a fault. -/
abbrev Lexed := Except LexError Token

/-- Words but the two keywords are identifiers. -/
def wordKind (word : List Char) : TokenKind :=
  if word = ['d', 'e', 'f'] then .defKeyword
  else if word = ['e', 'x', 't', 'e', 'r', 'n'] then .externKeyword
  else .identifier (String.ofList word)

def isNumberPart (c : Char) : Bool := Text.isAsciiDigit c || c == '.'

/-- The token of a number that was read from a literal, or what is wrong with the literal. -/
def numberOrFault (literal : List Char) (pos : Pos) : Option Double → Lexed
  | none => .error ⟨.malformed (String.ofList literal), pos⟩
  | some (.infinite _) => .error ⟨.outOfRange, pos⟩
  | some value => .ok ⟨.number value, pos⟩

def numberToken (literal : List Char) (pos : Pos) : Lexed :=
  numberOrFault literal pos ((Decimal.ofPositional? literal).map (Decimal.toDouble false))

namespace Cursor

/-- The next token or fault and the cursor behind it, or nothing if only white space and comments
are left. -/
def lexeme? (c : Cursor) : Option (Lexed × Cursor) :=
  let c := c.skipTrivia
  match c.rest with
  | [] => none
  | char :: rest =>
    if Text.isLetter char then
      let (word, after) := c.span Text.isWordPart
      some (.ok ⟨wordKind word, c.pos⟩, after)
    else if isNumberPart char then
      let (literal, after) := c.span isNumberPart
      some (numberToken literal c.pos, after)
    else some (.ok ⟨.symbol char, c.pos⟩, ⟨rest, c.pos.after char⟩)

theorem lexeme?_length_lt {c after : Cursor} {r : Lexed} (h : c.lexeme? = some (r, after)) :
    after.rest.length < c.rest.length := by
  have hle : c.skipTrivia.rest.length ≤ c.rest.length := skipFrom_length_le _ _ _
  unfold lexeme? at h
  simp only at h
  split at h
  · cases h
  · rename_i char rest hrest
    split at h
    · rename_i hletter
      cases h
      exact Nat.lt_of_lt_of_le
        (span_length_lt hrest (by simp [Text.isWordPart, hletter])) hle
    · split at h
      · rename_i hnumber
        cases h
        exact Nat.lt_of_lt_of_le (span_length_lt hrest hnumber) hle
      · cases h
        rw [hrest] at hle
        exact hle

/-- All tokens and faults of a text in order, each with the cursor behind it. -/
def lexemes (c : Cursor) : List (Lexed × Cursor) :=
  match _h : c.lexeme? with
  | none => []
  | some (r, after) => (r, after) :: after.lexemes
termination_by c.rest.length
decreasing_by exact lexeme?_length_lt _h

def finish (c : Cursor) : Pos := c.pos.afterAll c.rest

def toEnd (c : Cursor) : Cursor := ⟨[], c.finish⟩

/-- One token on demand. Past the last token, every call answers with the end of input. -/
def token (c : Cursor) : Lexed × Cursor :=
  match c.lexeme? with
  | none => (.ok ⟨.endOfInput, c.finish⟩, c.toEnd)
  | some found => found

/-- The tokens up to the first fault, or up to the given end if there is none. -/
def collectTokens : List (Lexed × Cursor) → Cursor → Except LexError (List Token) × Cursor
  | [], stop => (.ok [], stop)
  | (.error e, after) :: _, _ => (.error e, after)
  | (.ok t, _) :: rest, stop =>
    match collectTokens rest stop with
    | (.ok ts, after) => (.ok (t :: ts), after)
    | (.error e, after) => (.error e, after)

/-- All tokens that are left, and the cursor behind them or behind the first fault. -/
def tokens (c : Cursor) : Except LexError (List Token) × Cursor := collectTokens c.lexemes c.toEnd

end Cursor

/-- All tokens of a text. -/
def tokenize (text : String) : Except LexError (List Token) := (Cursor.ofText text .start).tokens.1

end ExprLang
