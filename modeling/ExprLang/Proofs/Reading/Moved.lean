import ExprLang.Proofs.Grammar.Derivation
import ExprLang.Reader.Program

/-! Tokens, trees and errors with all of their places changed in the same way. -/
namespace ExprLang

variable (f : Pos → Pos)

def Token.moved (t : Token) : Token := { t with pos := f t.pos }

def LexError.moved (e : LexError) : LexError := { e with pos := f e.pos }

def movedLexed : Lexed → Lexed
  | .ok t => .ok (t.moved f)
  | .error e => .error (e.moved f)

/-- An error at another place. -/
def SyntaxError.moved : SyntaxError → SyntaxError
  | .lexical fault => .lexical (fault.moved f)
  | .unexpected missing got => .unexpected missing (got.moved f)
  | .tooDeep got => .tooDeep (got.moved f)
  | e => e

namespace Expr

mutual

/-- An expression with all of its nodes at other places. -/
def moved : Expr → Expr
  | .number value pos => .number value (f pos)
  | .var name pos => .var name (f pos)
  | .binary operator left right pos => .binary operator left.moved right.moved (f pos)
  | .call callee args pos => .call callee (movedArgs args) (f pos)

def movedArgs : List Expr → List Expr
  | [] => []
  | arg :: rest => arg.moved :: movedArgs rest

end

end Expr

def Prototype.moved (p : Prototype) : Prototype := { p with pos := f p.pos }

/-- An item with all of its nodes at other places. -/
def Item.moved : Item → Item
  | .external proto => .external (proto.moved f)
  | .function g => .function ⟨g.proto.moved f, g.body.moved f, f g.pos⟩

section
variable {f : Pos → Pos}

@[simp] theorem Token.moved_kind (t : Token) : (t.moved f).kind = t.kind := rfl

@[simp] theorem Token.moved_pos (t : Token) : (t.moved f).pos = f t.pos := rfl

@[simp] theorem Token.moved_valueText (t : Token) : (t.moved f).valueText = t.valueText := rfl

@[simp] theorem Token.moved_isSymbol (t : Token) (c : Char) :
    (t.moved f).isSymbol c = t.isSymbol c := rfl

@[simp] theorem Token.moved_isName (t : Token) : (t.moved f).isName = t.isName := rfl

@[simp] theorem Token.moved_isNumber (t : Token) : (t.moved f).isNumber = t.isNumber := rfl

@[simp] theorem Table.isOperator_moved (t : Table) (token : Token) :
    t.isOperator (token.moved f) = t.isOperator token := rfl

theorem Expr.movedArgs_eq_map (args : List Expr) : movedArgs f args = args.map (moved f) := by
  induction args with
  | nil => rfl
  | cons arg rest ih => rw [movedArgs, ih, List.map_cons]

theorem joinLink_moved (left : Expr) (operator : Token) (right : Expr) :
    (joinLink left operator right).moved f =
      joinLink (left.moved f) (operator.moved f) (right.moved f) := by
  simp [joinLink, Expr.moved]

end

/-! Nothing is changed if all places stay as they are. -/

@[simp] theorem SyntaxError.moved_id (e : SyntaxError) : e.moved id = e := by
  cases e <;> rfl

namespace Expr

mutual

@[simp] theorem moved_id : (e : Expr) → e.moved id = e
  | .number _ _ | .var _ _ => by simp [moved]
  | .binary _ left right _ => by simp [moved, moved_id left, moved_id right]
  | .call _ args _ => by simp [moved, movedArgs_id args]

private theorem movedArgs_id : (args : List Expr) → movedArgs id args = args
  | [] => rfl
  | arg :: rest => by simp [movedArgs, moved_id arg, movedArgs_id rest]

end

end Expr

@[simp] theorem Item.moved_id (item : Item) : item.moved id = item := by
  cases item <;> simp [Item.moved, Prototype.moved]

theorem Item.map_moved_id (items : List Item) : items.map (moved id) = items := by
  rw [funext moved_id, List.map_id']

end ExprLang
