import ExprLang.Precedence.Table

/-! Proposed tables, of any values, and the check that makes a table of them. -/
namespace ExprLang

/-- Why no table can be made. -/
inductive TableError where
  | notOneCharacter (operator : Value)
  | notAnOperator (char : Char)
  | notPositive (char : Char) (strength : Value)
  | incompleteEntry (entry : String)
  | notAnInteger (entry strength : String)
  deriving DecidableEq, Repr

def TableError.message : TableError → String
  | .notOneCharacter operator => "Operator must be a single character, got " ++ operator.quoted
  | .notAnOperator c =>
    Text.quoted (String.singleton c) ++ " cannot be used as a binary operator"
  | .notPositive c strength =>
    "Precedence of " ++ Text.quoted (String.singleton c) ++ " must be a positive integer, got " ++
      strength.quoted
  | .incompleteEntry entry =>
    "Invalid precedence entry " ++ Text.quoted entry ++ ", expected OP=N"
  | .notAnInteger entry strength =>
    "Invalid precedence entry " ++ Text.quoted entry ++ ", " ++ Text.quoted strength ++
      " is not an integer"

/-- Operators and strengths as proposed, in order, with no operator twice. -/
structure Entries where
  pairs : List (Value × Value)
  deriving DecidableEq, Repr

namespace Entries

/-- Propose a strength. An operator proposed before keeps its place and its first spelling. -/
def put (entries : Entries) (operator strength : Value) : Entries :=
  if entries.pairs.any (·.1.same operator) then
    ⟨entries.pairs.map fun pair => if pair.1.same operator then (pair.1, strength) else pair⟩
  else ⟨entries.pairs ++ [(operator, strength)]⟩

/-- The proposals of a list, the later ones over the earlier ones. -/
def ofList (pairs : List (Value × Value)) : Entries :=
  pairs.foldl (fun entries pair => entries.put pair.1 pair.2) ⟨[]⟩

/-- Take back a proposal, if there is one for the operator. -/
def erase? (entries : Entries) (operator : Value) : Option Entries :=
  if entries.pairs.any (·.1.same operator) then
    some ⟨entries.pairs.filter fun pair => !pair.1.same operator⟩
  else none

def strength? (entries : Entries) (operator : Value) : Option Value :=
  (entries.pairs.find? (·.1.same operator)).map (·.2)

/-- The strength of a token, or -1 if it is no operator. The proposal need not be sound. -/
def strength (entries : Entries) (token : Token) : Value :=
  match token.kind with
  | .symbol c => (entries.strength? (.text (String.singleton c))).getD (.integer (-1))
  | _ => .integer (-1)

/-- A table as a proposal. -/
def ofTable (t : Table) : Entries :=
  ⟨t.entries.map fun entry => (.text (String.singleton entry.1), .integer entry.2)⟩

private theorem strength?_ofTable (entries : List (Char × Int)) (c : Char) :
    (ofTable ⟨entries⟩).strength? (.text (String.singleton c)) =
      (entries.lookup c).map Value.integer := by
  simp only [ofTable, strength?]
  induction entries with
  | nil => rfl
  | cons entry rest ih =>
    obtain ⟨d, n⟩ := entry
    simp only [List.map_cons, List.find?_cons, Value.same_text, List.lookup_cons]
    by_cases h : d = c
    · simp [h]
    · have hs : (String.singleton d == String.singleton c) = false := by
        simpa [String.ext_iff] using h
      have hc : (c == d) = false := by simpa using fun h' => h h'.symm
      simp only [hs, hc, ih]

/-- Proposing a table keeps its strengths. -/
theorem strength_ofTable (t : Table) (token : Token) :
    (ofTable t).strength token = .integer (t.strength token) := by
  obtain ⟨kind, pos⟩ := token
  cases kind with
  | symbol c =>
    have h : (ofTable t).strength? (.text (String.singleton c)) = _ := strength?_ofTable t.entries c
    simp only [strength, Table.strength, Table.strength?, h]
    cases t.entries.lookup c <;> rfl
  | _ => rfl

def standard : Entries := ofTable .standard

/-- One proposal: first the operator is checked, then its strength. -/
def checkPair : Value × Value → Except TableError (Char × Int)
  | (.text operator, strength) =>
    match operator.toList with
    | [c] =>
      if isOperatorChar c then
        match strength with
        | .integer n => if 0 < n then .ok (c, n) else .error (.notPositive c strength)
        | _ => .error (.notPositive c strength)
      else .error (.notAnOperator c)
    | _ => .error (.notOneCharacter (.text operator))
  | (operator, _) => .error (.notOneCharacter operator)

/-- All proposals in order, up to the first faulty one. -/
def checkPairs : List (Value × Value) → Except TableError (List (Char × Int))
  | [] => .ok []
  | pair :: rest => do
    let entry ← checkPair pair
    return entry :: (← checkPairs rest)

/-- The table that is proposed, if all proposals are sound. -/
def check (entries : Entries) : Except TableError Table := (checkPairs entries.pairs).map Table.mk

end Entries
end ExprLang
