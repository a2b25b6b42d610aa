import ExprLang.Proofs.Lexing.Lexable
import ExprLang.Proofs.Reading.Phrase
import ExprLang.Proofs.Text.Classes

/-! Expressions up to the places of their nodes, and those that source text can be written for. All
expressions that are read from a text are such. -/
namespace ExprLang

namespace Expr

mutual

/-- The expression with all nodes at the same place. -/
def unplaced : Expr → Expr
  | .number value _ => .number value .start
  | .var name _ => .var name .start
  | .binary operator left right _ => .binary operator left.unplaced right.unplaced .start
  | .call callee args _ => .call callee (unplacedArgs args) .start

def unplacedArgs : List Expr → List Expr
  | [] => []
  | arg :: rest => arg.unplaced :: unplacedArgs rest

end

/-- The names of an expression are identifiers, its numbers are finite and have no sign, and its
operators are those of a table. -/
inductive Writable (t : Table) : Expr → Prop
  | number (index : Fin magnitudeCount) (pos : Pos) : Writable t (.number (.finite false index) pos)
  | var {name : String} (hname : Text.isIdentifier name = true) (pos : Pos) :
      Writable t (.var name pos)
  | binary {c : Char} {n : Int} {left right : Expr} (hop : t.strength? c = some n)
      (hleft : Writable t left) (hright : Writable t right) (pos : Pos) :
      Writable t (.binary (String.singleton c) left right pos)
  | call {callee : String} {args : List Expr} (hname : Text.isIdentifier callee = true)
      (hargs : ∀ arg ∈ args, Writable t arg) (pos : Pos) : Writable t (.call callee args pos)

end Expr

/-- The item with everything at the same place. -/
def Item.unplaced : Item → Item
  | .external proto => .external { proto with pos := .start }
  | .function f => .function ⟨{ f.proto with pos := .start }, f.body.unplaced, .start⟩

/-- An operator of a legal table is a token of its own. -/
theorem Table.Legal.isAlone {t : Table} (ht : t.Legal) {c : Char} {n : Int}
    (h : t.strength? c = some n) : Text.isAlone c = true :=
  (Text.isOperatorChar_iff.mp (ht.operator _ (Table.mem_of_strength? h))).2.1

namespace Phrase
variable {t : Table} {inner operand : Phrase Expr} {ts : List Token}

/-- All tokens can be found in a text. -/
abbrev AllLexable (ts : List Token) : Prop := ∀ token ∈ ts, token.kind.Lexable

theorem isIdentifier_of_lexable {token : Token} {name : String} (h : token.kind = .identifier name)
    (hlexable : token.kind.Lexable) : Text.isIdentifier name = true := by
  rw [h] at hlexable
  exact hlexable

/-- A property of trees that is passed on to a tree by its parts and by the token of its root, if
the token is of a certain kind. -/
structure Inherited (t : Table) (good : Token → Prop) (p : Expr → Prop) : Prop where
  number : ∀ {token : Token} {value : Double}, good token → token.kind = .number value →
    p (.number value token.pos)
  name : ∀ {token : Token} {name : String}, good token → token.kind = .identifier name →
    p (.var name token.pos)
  call : ∀ {token : Token} {name : String} {args : List Expr}, good token →
    token.kind = .identifier name → (∀ arg ∈ args, p arg) → p (.call name args token.pos)
  join : ∀ {left right : Expr} {operator : Token}, good operator →
    t.isOperator operator = true → p left → p right → p (joinLink left operator right)

namespace Inherited
variable {good : Token → Prop} {p : Expr → Prop} {e : Expr}

private theorem arguments (hinner : ∀ us e, inner us e → (∀ u ∈ us, good u) → p e)
    {args : List Expr} (h : Arguments inner ts args) (hts : ∀ u ∈ ts, good u) :
    ∀ arg ∈ args, p arg := by
  induction h with
  | last harg _ =>
    intro arg h
    rw [List.mem_singleton.mp h]
    exact hinner _ _ harg fun u hu => hts u (by simp [hu])
  | more harg _ _ ih =>
    intro arg h
    rcases List.mem_cons.mp h with rfl | h
    · exact hinner _ _ harg fun u hu => hts u (by simp [hu])
    · exact ih (fun u hu => hts u (by simp [hu])) arg h

private theorem links (hoperand : ∀ us e, operand us e → (∀ u ∈ us, good u) → p e)
    {links : List Link} (h : Links (t.isOperator · = true) operand ts links)
    (hts : ∀ u ∈ ts, good u) :
    ∀ link ∈ links, (good link.1 ∧ t.isOperator link.1 = true) ∧ p link.2 := by
  induction h with
  | nil => simp
  | cons hop hright _ ih =>
    intro link h
    rcases List.mem_cons.mp h with rfl | h
    · exact ⟨⟨hts _ (by simp), hop⟩, hoperand _ _ hright fun u hu => hts u (by simp [hu])⟩
    · exact ih (fun u hu => hts u (by simp [hu])) link h

private theorem expressionOver (hp : Inherited t good p)
    (hoperand : ∀ us e, operand us e → (∀ u ∈ us, good u) → p e)
    (h : ExpressionOver t operand ts e) (hts : ∀ u ∈ ts, good u) : p e := by
  cases h with
  | @chain _ _ first found hfirst hfound =>
    obtain ⟨g, hg, _, rfl, rfl⟩ := Grouping.shuntingYard_eq_tree t.strength first found
    have hjoin (left : Expr) (operator : Token) (right : Expr)
        (hop : good operator ∧ t.isOperator operator = true) (hleft : p left) (hright : p right) :
        p (joinLink left operator right) := hp.join hop.1 hop.2 hleft hright
    rw [hg]
    apply Grouping.tree_induction hjoin
    · exact hoperand _ _ hfirst fun u hu => hts u (by simp [hu])
    · exact links hoperand hfound fun u hu => hts u (by simp [hu])

private theorem operandOver (hp : Inherited t good p)
    (hinner : ∀ us e, inner us e → (∀ u ∈ us, good u) → p e)
    (h : OperandOver inner ts e) (hts : ∀ u ∈ ts, good u) : p e := by
  cases h with
  | number h => exact hp.number (hts _ (by simp)) h
  | name h => exact hp.name (hts _ (by simp)) h
  | emptyCall h _ _ => exact hp.call (hts _ (by simp)) h (by simp)
  | call h _ hargs =>
    exact hp.call (hts _ (by simp)) h (arguments hinner hargs fun u hu => hts u (by simp [hu]))
  | bracketed _ h _ => exact hinner _ _ h fun u hu => hts u (by simp [hu])

private theorem operandWithin (hp : Inherited t good p) {levels : Nat} (h : Operand t levels ts e)
    (hts : ∀ u ∈ ts, good u) : p e := by
  induction levels generalizing ts e with
  | zero => exact h.elim
  | succ levels ih =>
    exact hp.operandOver (fun _ _ => hp.expressionOver fun _ _ => ih) h hts

/-- What is passed on holds of every expression that good tokens stand for. -/
theorem expression (hp : Inherited t good p) {levels : Nat} (h : Expression t levels ts e)
    (hts : ∀ u ∈ ts, good u) : p e :=
  hp.expressionOver (fun _ _ => hp.operandWithin) h hts

end Inherited

private theorem writable_inherited : Inherited t (·.kind.Lexable) (Expr.Writable t) where
  number := by
    intro token value hlexable h
    rw [h] at hlexable
    obtain ⟨index, rfl⟩ := hlexable
    exact .number index _
  name hlexable h := .var (isIdentifier_of_lexable h hlexable) _
  call hlexable h hargs := .call (isIdentifier_of_lexable h hlexable) hargs _
  join := by
    intro left right operator _ hop hleft hright
    obtain ⟨c, n, hc, hn⟩ := Table.isOperator_iff.mp hop
    rw [joinLink, hc]
    exact .binary hn hleft hright _

/-- Every expression that tokens of a text stand for can be written. -/
theorem Expression.writable {levels : Nat} {e : Expr} (h : Expression t levels ts e)
    (hlexable : AllLexable ts) : e.Writable t := writable_inherited.expression h hlexable

end Phrase
end ExprLang
