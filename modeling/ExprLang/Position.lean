/-! Places in a text, and how they move as it is read. -/
namespace ExprLang

/-- The line and column of a character. Reading may start anywhere, so both are integers. -/
structure Pos where
  line : Int
  column : Int
  deriving DecidableEq, Repr

namespace Pos

def start : Pos := ⟨1, 1⟩

/-- The place behind a character. Only a line feed ends a line. -/
def after (p : Pos) (c : Char) : Pos :=
  if c = '\n' then ⟨p.line + 1, 1⟩ else ⟨p.line, p.column + 1⟩

def afterAll (p : Pos) (cs : List Char) : Pos := cs.foldl after p

@[simp] theorem afterAll_nil (p : Pos) : p.afterAll [] = p := rfl

@[simp] theorem afterAll_cons (p : Pos) (c : Char) (cs : List Char) :
    p.afterAll (c :: cs) = (p.after c).afterAll cs := rfl

@[simp] theorem afterAll_append (p : Pos) (cs ds : List Char) :
    p.afterAll (cs ++ ds) = (p.afterAll cs).afterAll ds := List.foldl_append

def inWords (p : Pos) : String := "line " ++ toString p.line ++ ", col " ++ toString p.column

end Pos
end ExprLang
