import ExprLang.Text.Blank
import ExprLang.Text.Numeric
import ExprLang.Token

/-! Tables of binary operators and their strengths. A stronger operator binds tighter. -/
namespace ExprLang

/-- Operators in order, each with its strength. -/
structure Table where
  entries : List (Char × Int)
  deriving DecidableEq, Repr

/-- The characters that have a meaning of their own and so are no operators. -/
def reservedChars : List Char := ['(', ')', ',', ';', '#', '.']

/-- A character that may be an operator: no part of a word, no white space and not reserved. -/
def isOperatorChar (c : Char) : Bool :=
  !Text.isWordPart c && !Text.isBlank c && !reservedChars.contains c

namespace Table

def standard : Table := ⟨[('<', 10), ('+', 20), ('-', 20), ('*', 40)]⟩

def strength? (t : Table) (c : Char) : Option Int := t.entries.lookup c

/-- The strength of a token, or -1 if it is no operator of the table. -/
def strength (t : Table) (token : Token) : Int :=
  match token.kind with
  | .symbol c => (t.strength? c).getD (-1)
  | _ => -1

/-- A table whose operators are distinct operator characters of positive strength. -/
structure Legal (t : Table) : Prop where
  distinct : (t.entries.map Prod.fst).Nodup
  operator : ∀ entry ∈ t.entries, isOperatorChar entry.1 = true
  positive : ∀ entry ∈ t.entries, 0 < entry.2

theorem standard_legal : standard.Legal where
  distinct := by decide
  operator := by decide +kernel
  positive := by decide

end Table
end ExprLang
