import ExprLang.Precedence.Entries
import ExprLang.Text.Integer
import ExprLang.Text.Joined

/-! Tables written as text: entries such as `+=20`, separated by commas, over a given table. -/
namespace ExprLang.Entries

/-- The entries of some specifications, without the white space around them. -/
def specEntries (specs : List String) : List (List Char) :=
  specs.flatMap fun spec => (Text.cutAt ',' spec.toList).map (Text.trim Text.isBlank)

/-- Put one written entry over a proposal. An empty entry changes nothing. The last `=` separates
the operator from its strength, so `=` itself may be an operator. -/
def putEntry (entries : Entries) (entry : List Char) : Except TableError Entries :=
  if entry.isEmpty then .ok entries
  else
    match Text.cutAtLast? '=' entry with
    | none | some ([], _) => .error (.incompleteEntry (String.ofList entry))
    | some (operator, strength) =>
      match Text.integer? strength with
      | none => .error (.notAnInteger (String.ofList entry) (String.ofList strength))
      | some n => .ok (entries.put (.text (String.ofList operator)) (.integer n))

/-- Put written entries over a proposal, one after the other. -/
def putEntries : Entries → List (List Char) → Except TableError Entries
  | entries, [] => .ok entries
  | entries, entry :: rest => do putEntries (← entries.putEntry entry) rest

end ExprLang.Entries

namespace ExprLang.Table

/-- The table of some specifications over a base. The check comes last, so a later entry may mend
an earlier one. -/
def ofSpecs (specs : List String) (base : Entries) : Except TableError Table := do
  (← base.putEntries (Entries.specEntries specs)).check

/-- The table that the environment asks for, if it asks for one. -/
def ofEnvironment (setting : Option String) : Except TableError (Option Table) :=
  match setting with
  | none => .ok none
  | some spec => if spec.isEmpty then .ok none else (ofSpecs [spec] .standard).map some

end ExprLang.Table
