import ExprLang.Text.Ranges

/-! White space, and texts without the white space at their ends. -/
namespace ExprLang.Text

/-- The code points that separate words: the controls of lines and fields, and the separators. -/
def blankRanges : List (Nat × Nat) := [
  (9, 13), (28, 32), (133, 133), (160, 160), (5760, 5760), (8192, 8202), (8232, 8233), (8239, 8239),
  (8287, 8287), (12288, 12288)]

def isBlank (c : Char) : Bool := covers blankRanges c.toNat

/-- White space around a whole number: all but the four information separators. -/
def isNumberBlank (c : Char) : Bool := isBlank c && !(28 ≤ c.toNat && c.toNat ≤ 31)

/-- A text without the blanks at its end. -/
def trimEnd (blank : Char → Bool) : List Char → List Char
  | [] => []
  | c :: rest =>
    match trimEnd blank rest with
    | [] => if blank c then [] else [c]
    | kept => c :: kept

def trim (blank : Char → Bool) (cs : List Char) : List Char :=
  trimEnd blank (cs.dropWhile blank)

end ExprLang.Text
