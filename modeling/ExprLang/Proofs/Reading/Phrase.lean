import ExprLang.Proofs.Chain.ShuntingYard
import ExprLang.Proofs.Grammar.Nesting
import ExprLang.Reader.Expression

/-! Phrases of the grammar with the trees that they stand for. Operands are given by how many
brackets may be open around their innermost parts. -/
namespace ExprLang

/-- Tokens that stand for something. -/
abbrev Phrase (α : Type) := List Token → α → Prop

namespace Phrase

/-- One or more arguments with commas between them, and the closing bracket. -/
inductive Arguments (inner : Phrase Expr) : Phrase (List Expr)
  | last {ts : List Token} {arg : Expr} {closing : Token} (harg : inner ts arg)
      (hclose : closing.isSymbol ')' = true) : Arguments inner (ts ++ [closing]) [arg]
  | more {ts us : List Token} {arg : Expr} {comma : Token} {args : List Expr} (harg : inner ts arg)
      (hcomma : comma.isSymbol ',' = true) (hrest : Arguments inner us args) :
      Arguments inner (ts ++ comma :: us) (arg :: args)

/-- A number, a name, a call or an expression in brackets. -/
inductive OperandOver (inner : Phrase Expr) : Phrase Expr
  | number {token : Token} {value : Double} (h : token.kind = .number value) :
      OperandOver inner [token] (.number value token.pos)
  | name {token : Token} {name : String} (h : token.kind = .identifier name) :
      OperandOver inner [token] (.var name token.pos)
  | emptyCall {token opening closing : Token} {name : String} (h : token.kind = .identifier name)
      (hopen : opening.isSymbol '(' = true) (hclose : closing.isSymbol ')' = true) :
      OperandOver inner [token, opening, closing] (.call name [] token.pos)
  | call {token opening : Token} {name : String} {ts : List Token} {args : List Expr}
      (h : token.kind = .identifier name) (hopen : opening.isSymbol '(' = true)
      (hargs : Arguments inner ts args) :
      OperandOver inner (token :: opening :: ts) (.call name args token.pos)
  | bracketed {opening closing : Token} {ts : List Token} {e : Expr}
      (hopen : opening.isSymbol '(' = true) (hinner : inner ts e)
      (hclose : closing.isSymbol ')' = true) : OperandOver inner (opening :: (ts ++ [closing])) e

/-- Operators that are admitted, each with an operand behind it. -/
inductive Links (admitted : Token → Prop) (operand : Phrase Expr) : Phrase (List Link)
  | nil : Links admitted operand [] []
  | cons {operator : Token} {ts us : List Token} {right : Expr} {links : List Link}
      (hop : admitted operator) (hright : operand ts right)
      (hrest : Links admitted operand us links) :
      Links admitted operand (operator :: (ts ++ us)) ((operator, right) :: links)

/-- An operand and links behind it. They stand for the tree of the shunting-yard algorithm. -/
inductive ExpressionOver (t : Table) (operand : Phrase Expr) : Phrase Expr
  | chain {ts us : List Token} {first : Expr} {links : List Link} (hfirst : operand ts first)
      (hlinks : Links (t.isOperator · = true) operand us links) :
      ExpressionOver t operand (ts ++ us) (shuntingYard t.strength first links)

/-- An operand whose brackets nest less than `levels` deep. -/
def Operand (t : Table) : (levels : Nat) → Phrase Expr
  | 0 => fun _ _ => False
  | levels + 1 => OperandOver (ExpressionOver t (Operand t levels))

/-- An expression whose brackets nest less than `levels` deep. -/
abbrev Expression (t : Table) (levels : Nat) : Phrase Expr := ExpressionOver t (Operand t levels)

variable {t : Table} {inner inner' operand operand' : Phrase Expr} {ts : List Token}

theorem Operand.expression {levels : Nat} {e : Expr} (h : Operand t levels ts e) :
    Expression t levels ts e := by
  have hchain : Expression t levels (ts ++ []) e := .chain h .nil
  rwa [List.append_nil] at hchain

theorem Operand.joined {levels : Nat} {us : List Token} {left right : Expr} {operator : Token}
    (hleft : Operand t levels ts left) (hop : t.isOperator operator = true)
    (hright : Operand t levels us right) :
    Expression t levels (ts ++ operator :: us) (joinLink left operator right) := by
  have hchain : Expression t levels (ts ++ operator :: (us ++ [])) (joinLink left operator right) :=
    .chain hleft (.cons hop hright .nil)
  rwa [List.append_nil] at hchain

private theorem Arguments.derives (hinner : ∀ ts e, inner ts e → Derives t .expression ts)
    {args : List Expr} (h : Arguments inner ts args) : ∃ us closing, ts = us ++ [closing] ∧
      Derives t .arguments us ∧ closing.isSymbol ')' = true := by
  induction h with
  | last harg hclose => exact ⟨_, _, rfl, .lastArgument (hinner _ _ harg), hclose⟩
  | more harg hcomma _ ih =>
    obtain ⟨us, closing, rfl, hargs, hclose⟩ := ih
    exact ⟨_, closing, by simp, .moreArguments (hinner _ _ harg) hcomma hargs, hclose⟩

theorem OperandOver.derives (hinner : ∀ ts e, inner ts e → Derives t .expression ts) {e : Expr}
    (h : OperandOver inner ts e) : Derives t .primary ts := by
  have hname {token : Token} {name : String} (h : token.kind = .identifier name) :
      token.isName = true := Token.isName_iff.mpr ⟨name, h⟩
  cases h with
  | number h => exact .number (Token.isNumber_iff.mpr ⟨_, h⟩)
  | name h => exact .name (hname h)
  | emptyCall h hopen hclose => exact .emptyCall (hname h) hopen hclose
  | call h hopen hargs =>
    obtain ⟨us, closing, rfl, hargs, hclose⟩ := hargs.derives hinner
    exact .call (hname h) hopen hargs hclose
  | bracketed hopen h hclose => exact .bracketed hopen (hinner _ _ h) hclose

private theorem Links.derives (hoperand : ∀ ts e, operand ts e → Derives t .primary ts)
    {links : List Link}
    (h : Links (t.isOperator · = true) operand ts links) : Derives t .links ts := by
  induction h with
  | nil => exact .noLink
  | cons hop hright _ ih => exact .link hop (hoperand _ _ hright) ih

theorem Links.admitted {admitted : Token → Prop} {links : List Link}
    (h : Links admitted operand ts links) : ∀ link ∈ links, admitted link.1 := by
  induction h with
  | nil => simp
  | cons hop _ _ ih =>
    intro link hlink
    rcases List.mem_cons.mp hlink with rfl | hlink
    · exact hop
    · exact ih link hlink

private theorem ExpressionOver.derives (hoperand : ∀ ts e, operand ts e → Derives t .primary ts)
    {e : Expr} (h : ExpressionOver t operand ts e) : Derives t .expression ts := by
  cases h with
  | chain hfirst hlinks => exact .expression (hoperand _ _ hfirst) (hlinks.derives hoperand)

theorem Operand.derives {levels : Nat} {ts : List Token} {e : Expr} (h : Operand t levels ts e) :
    Derives t .primary ts := by
  induction levels generalizing ts e with
  | zero => exact h.elim
  | succ levels ih => exact OperandOver.derives (fun _ _ => ExpressionOver.derives fun _ _ => ih) h

theorem Expression.derives {levels : Nat} {ts : List Token} {e : Expr}
    (h : Expression t levels ts e) : Derives t .expression ts :=
  ExpressionOver.derives (fun _ _ => Operand.derives) h

private theorem Arguments.imp {n : Nat} (hbalance : ∀ us e, inner us e → balance us = 0)
    (himp : ∀ us e, inner us e → nesting us < n → inner' us e) {args : List Expr}
    (h : Arguments inner ts args) (hn : nesting ts < n) : Arguments inner' ts args := by
  induction h with
  | last harg hclose =>
    exact .last (himp _ _ harg (Nat.lt_of_le_of_lt (nesting_append_left _ _) hn)) hclose
  | @more us vs _ comma _ harg hcomma _ ih =>
    have hleft := nesting_append_left us (comma :: vs)
    have hright := nesting_append_right (hbalance _ _ harg) (comma :: vs)
    have hzero : balance [comma] = 0 := by simp [balance, bracketWeight_of_isSymbol hcomma]
    have hskip := nesting_append_right hzero vs
    rw [List.singleton_append] at hskip
    exact .more (himp _ _ harg (by omega)) hcomma (ih (by omega))

private theorem Links.imp (ht : t.Legal) {n : Nat}
    (hbalance : ∀ us e, operand us e → balance us = 0)
    (himp : ∀ us e, operand us e → nesting us < n → operand' us e) {links : List Link}
    (h : Links (t.isOperator · = true) operand ts links) (hn : nesting ts < n) :
    Links (t.isOperator · = true) operand' ts links := by
  induction h with
  | nil => exact .nil
  | @cons operator us vs _ _ hop hright _ ih =>
    have hzero : balance [operator] = 0 := by simp [balance, ht.bracketWeight_eq_zero hop]
    have hskip := nesting_append_right hzero (us ++ vs)
    rw [List.singleton_append] at hskip
    have hleft := nesting_append_left us vs
    have hrest := nesting_append_right (hbalance _ _ hright) vs
    exact .cons hop (himp _ _ hright (by omega)) (ih (by omega))

private theorem ExpressionOver.imp (ht : t.Legal) {n : Nat}
    (hbalance : ∀ us e, operand us e → balance us = 0)
    (himp : ∀ us e, operand us e → nesting us < n → operand' us e) {e : Expr}
    (h : ExpressionOver t operand ts e) (hn : nesting ts < n) : ExpressionOver t operand' ts e := by
  cases h with
  | @chain us vs _ _ hfirst hlinks =>
    have hleft := nesting_append_left us vs
    have hright := nesting_append_right (hbalance _ _ hfirst) vs
    exact .chain (himp _ _ hfirst (by omega)) (hlinks.imp ht hbalance himp (by omega))

private theorem OperandOver.imp {n : Nat} (hbalance : ∀ us e, inner us e → balance us = 0)
    (himp : ∀ us e, inner us e → nesting us < n → inner' us e) {e : Expr}
    (h : OperandOver inner ts e) (hn : nesting ts < n + 1) : OperandOver inner' ts e := by
  cases h with
  | number h => exact .number h
  | name h => exact .name h
  | emptyCall h hopen hclose => exact .emptyCall h hopen hclose
  | @call token opening _ us _ h hopen hargs =>
    have hskip : nesting (token :: opening :: us) = nesting us + 1 := by
      simp [nesting, Token.isSymbol, h, Token.isSymbol_iff.mp hopen]
    exact .call h hopen (hargs.imp hbalance himp (by omega))
  | @bracketed _ closing us _ hopen h hclose =>
    have hlt := nesting_brackets hopen us [closing]
    exact .bracketed hopen (himp _ _ h (by omega)) hclose

/-- How deep the brackets of an operand nest is all that matters for the level it is read at. -/
theorem Operand.of_nesting (ht : t.Legal) {m n : Nat} {ts : List Token} {e : Expr}
    (h : Operand t m ts e) (hn : nesting ts < n) : Operand t n ts e := by
  induction m generalizing n ts e with
  | zero => exact h.elim
  | succ m ih =>
    obtain _ | n := n
    · exact absurd hn (Nat.not_lt_zero _)
    have hbalance : ∀ us e, Operand t m us e → balance us = 0 :=
      fun _ _ h => h.derives.balance_eq_zero ht
    exact OperandOver.imp (fun _ _ h => (Expression.derives h).balance_eq_zero ht)
      (fun _ _ => ExpressionOver.imp ht hbalance fun _ _ => ih) h hn

theorem Expression.of_nesting (ht : t.Legal) {m n : Nat} {ts : List Token} {e : Expr}
    (h : Expression t m ts e) (hn : nesting ts < n) : Expression t n ts e :=
  ExpressionOver.imp ht (fun _ _ h => h.derives.balance_eq_zero ht)
    (fun _ _ h hn => h.of_nesting ht hn) h hn

private def Readable (t : Table) (levels : Nat) : Nonterminal → List Token → Prop
  | .primary, ts => ∃ e, Operand t levels ts e
  | .expression, ts => ∃ e, Expression t levels ts e
  | .links, ts => ∃ links, Links (t.isOperator · = true) (Operand t levels) ts links
  | .arguments, ts => ∀ closing : Token, closing.isSymbol ')' = true →
    ∃ args, Arguments (Expression t levels) (ts ++ [closing]) args
  | _, _ => True

private theorem readable_of_derives {k : Nonterminal} (h : Derives t k ts) (n : Nat)
    (hn : ts.length ≤ n) : Readable t n k ts := by
  induction h generalizing n with
  | noItem | semicolon | definitionItem | externalItem | expressionItem | definition | external
  | prototype => trivial
  | expression _ _ ihf ihl =>
    rw [List.length_append] at hn
    obtain ⟨first, hfirst⟩ := ihf n (by omega)
    obtain ⟨links, hlinks⟩ := ihl n (by omega)
    exact ⟨_, .chain hfirst hlinks⟩
  | noLink => exact ⟨[], .nil⟩
  | link hop _ _ ihr ihl =>
    rw [List.length_cons, List.length_append] at hn
    obtain ⟨right, hright⟩ := ihr n (by omega)
    obtain ⟨links, hlinks⟩ := ihl n (by omega)
    exact ⟨_, .cons hop hright hlinks⟩
  | lastArgument _ ih =>
    intro closing hclose
    obtain ⟨arg, harg⟩ := ih n hn
    exact ⟨_, .last harg hclose⟩
  | moreArguments _ hcomma _ iha ihr =>
    rw [List.length_append, List.length_cons] at hn
    intro closing hclose
    obtain ⟨arg, harg⟩ := iha n (by omega)
    obtain ⟨args, hargs⟩ := ihr n (by omega) closing hclose
    exact ⟨_, by simpa using Arguments.more harg hcomma hargs⟩
  | number h =>
    obtain _ | n := n
    · simp at hn
    obtain ⟨value, hvalue⟩ := Token.isNumber_iff.mp h
    exact ⟨_, OperandOver.number hvalue⟩
  | name h =>
    obtain _ | n := n
    · simp at hn
    obtain ⟨name, hname⟩ := Token.isName_iff.mp h
    exact ⟨_, OperandOver.name hname⟩
  | emptyCall hname hopen hclose =>
    obtain _ | n := n
    · simp at hn
    obtain ⟨name, hname⟩ := Token.isName_iff.mp hname
    exact ⟨_, OperandOver.emptyCall hname hopen hclose⟩
  | call hname hopen _ hclose ih =>
    obtain _ | n := n
    · simp at hn
    obtain ⟨name, hname⟩ := Token.isName_iff.mp hname
    obtain ⟨args, hargs⟩ := ih n (by simp at hn; omega) _ hclose
    exact ⟨_, OperandOver.call hname hopen hargs⟩
  | bracketed hopen _ hclose ih =>
    obtain _ | n := n
    · simp at hn
    obtain ⟨e, he⟩ := ih n (by simp at hn; omega)
    exact ⟨_, OperandOver.bracketed hopen he hclose⟩

/-- What the grammar derives as an operand stands for a tree. -/
theorem exists_operand (ht : t.Legal) {levels : Nat} (h : Derives t .primary ts)
    (hn : nesting ts < levels) : ∃ e, Operand t levels ts e := by
  obtain ⟨e, he⟩ := readable_of_derives h ts.length (Nat.le_refl _)
  exact ⟨e, he.of_nesting ht hn⟩

/-- What the grammar derives as an expression stands for a tree. -/
theorem exists_expression (ht : t.Legal) {levels : Nat} (h : Derives t .expression ts)
    (hn : nesting ts < levels) : ∃ e, Expression t levels ts e := by
  obtain ⟨e, he⟩ := readable_of_derives h ts.length (Nat.le_refl _)
  exact ⟨e, he.of_nesting ht hn⟩

end Phrase
end ExprLang
