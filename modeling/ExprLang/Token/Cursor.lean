import ExprLang.Position
import ExprLang.Text.Blank

/-! A reading position in a text: what is left to read, and the place of its first character. -/
namespace ExprLang

/-- The characters that are left, and the place of the first of them. -/
structure Cursor where
  rest : List Char
  pos : Pos
  deriving DecidableEq, Repr

namespace Cursor

def ofText (text : String) (pos : Pos) : Cursor := ⟨text.toList, pos⟩

def peek? (c : Cursor) : Option Char := c.rest.head?

def atEnd (c : Cursor) : Bool := c.rest.isEmpty

/-- Read one character. Nothing is read at the end. -/
def next? (c : Cursor) : Option (Char × Cursor) :=
  match c.rest with
  | [] => none
  | char :: rest => some (char, ⟨rest, c.pos.after char⟩)

/-- What is reported when a character is read at the end. -/
def pastEndMessage (c : Cursor) : String :=
  "CharacterStreamError: Attempted to read past end of source at line=<" ++ toString c.pos.line ++
    ">, column=<" ++ toString c.pos.column ++ ">"

def span (test : Char → Bool) (c : Cursor) : List Char × Cursor :=
  (c.rest.takeWhile test, ⟨c.rest.dropWhile test, c.pos.afterAll (c.rest.takeWhile test)⟩)

/-- Read up to the end of the line, but not the line feed. -/
def skipComment (c : Cursor) : Cursor := (c.span (· != '\n')).2

/-- Skip white space and comments. A comment runs from a `#` up to the end of the line, and the
line feed behind it is white space again. -/
def skipFrom (inComment : Bool) : List Char → Pos → Cursor
  | [], pos => ⟨[], pos⟩
  | char :: rest, pos =>
    if inComment then skipFrom (char != '\n') rest (pos.after char)
    else if Text.isBlank char then skipFrom false rest (pos.after char)
    else if char = '#' then skipFrom true rest (pos.after char)
    else ⟨char :: rest, pos⟩

def skipTrivia (c : Cursor) : Cursor := skipFrom false c.rest c.pos

theorem skipFrom_length_le (inComment : Bool) (cs : List Char) (pos : Pos) :
    (skipFrom inComment cs pos).rest.length ≤ cs.length := by
  induction cs generalizing inComment pos with
  | nil => simp [skipFrom]
  | cons char rest ih =>
    have h := fun b => ih b (pos.after char)
    unfold skipFrom
    split
    · exact Nat.le_succ_of_le (h _)
    · split
      · exact Nat.le_succ_of_le (h _)
      · split
        · exact Nat.le_succ_of_le (h _)
        · simp

/-- What is read and what is left make up what was there. -/
theorem span_append (test : Char → Bool) (c : Cursor) :
    (c.span test).1 ++ (c.span test).2.rest = c.rest := List.takeWhile_append_dropWhile

/-- Reading on from a character that satisfies the test reads at least that character. -/
theorem span_length_lt {test : Char → Bool} {c : Cursor} {char : Char} {rest : List Char}
    (h : c.rest = char :: rest) (ht : test char = true) :
    (c.span test).2.rest.length < c.rest.length := by
  have hle := (List.dropWhile_sublist (l := rest) test).length_le
  simp only [span, h, List.dropWhile_cons, ht, if_true, List.length_cons]
  omega

end Cursor
end ExprLang
