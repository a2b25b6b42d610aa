import ExprLang.Text.Blank
import ExprLang.Text.Digit

/-! Whole numbers as a person may type them: white space around, one sign, decimal digits of any
script, and single underscores between digits. -/
namespace ExprLang.Text

def integerDigitLimit : Nat := 4300

/-- The values of digits with at most one underscore between two of them. -/
def digitRun? : List Char → Option (List Nat)
  | [] => none
  | [c] => (digitValue? c).map ([·])
  | c :: '_' :: rest => do
    let digit ← digitValue? c
    return digit :: (← digitRun? rest)
  | c :: rest => do
    let digit ← digitValue? c
    return digit :: (← digitRun? rest)

def ofDigits (digits : List Nat) : Nat := digits.foldl (fun n digit => 10 * n + digit) 0

/-- A number without a sign, if it has no more digits than are read. -/
def natural? (cs : List Char) : Option Nat := do
  let digits ← digitRun? cs
  if digits.length ≤ integerDigitLimit then some (ofDigits digits) else none

/-- The number that a text stands for, if it is one. -/
def integer? (cs : List Char) : Option Int :=
  match trim isNumberBlank cs with
  | '+' :: rest => (natural? rest).map fun n => (n : Int)
  | '-' :: rest => (natural? rest).map fun n => -(n : Int)
  | rest => (natural? rest).map fun n => (n : Int)

end ExprLang.Text
