import ExprLang.Proofs.Lexing.Spelling
import ExprLang.Proofs.Reading.Acceptance
import ExprLang.Proofs.Writing.Writable
import ExprLang.Tree.Source

/-! The source text of an expression is read as the same expression, whatever the strengths of its
operators. -/
namespace ExprLang

/-- How deep the brackets of a text nest. Where there is a fault, nothing nests. -/
def textNesting (text : String) : Nat :=
  match tokenize text with
  | .ok ts => nesting ts
  | .error _ => 0

theorem textNesting_eq {text : String} {ts : List Token} (h : tokenize text = .ok ts) :
    textNesting text = nesting ts := by
  rw [textNesting, h]

theorem Spells.textNesting_le {text : String} {kinds : List TokenKind} (h : Spells text kinds) :
    textNesting text ≤ kinds.length := by
  obtain ⟨ts, htokens, rfl⟩ := h.tokenize
  rw [textNesting_eq htokens, List.length_map]
  exact nesting_le_length ts

namespace Expr

mutual

/-- The kinds of the tokens that an expression is written with. -/
def kinds : Expr → List TokenKind
  | .number value _ => [.number value]
  | .var name _ => [.identifier name]
  | .binary operator left right _ =>
    .symbol '(' :: (left.kinds ++ operator.toList.map .symbol ++ right.kinds ++ [.symbol ')'])
  | .call callee args _ => .identifier callee :: .symbol '(' :: argKinds args

/-- Those of the arguments, with commas between them and the closing bracket. -/
def argKinds : List Expr → List TokenKind
  | [] => [.symbol ')']
  | [arg] => arg.kinds ++ [.symbol ')']
  | arg :: next :: rest => arg.kinds ++ .symbol ',' :: argKinds (next :: rest)

end

variable {t : Table}

private theorem scans_args {args : List Expr} (hargs : ∀ arg ∈ args, Spells arg.source arg.kinds)
    {rest : List Char} {more : List TokenKind} (h : Scans rest more) :
    Scans ((Text.joined ", " (argSources args)).toList ++ ')' :: rest) (argKinds args ++ more) := by
  have hclose : Scans (')' :: rest) (.symbol ')' :: more) := h.symbol (by decide)
  induction args with
  | nil => simpa [Text.joined, argSources, argKinds] using hclose
  | cons arg args ih =>
    have harg := hargs arg (by simp)
    cases args with
    | nil =>
      simpa [Text.joined, argSources, argKinds] using
        harg _ _ (parts_cons (by decide) (by decide)) hclose
    | cons next args =>
      have hcomma := ((ih fun e he => hargs e (List.mem_cons_of_mem arg he)).blank
        (c := ' ') (by decide)).symbol (c := ',') (by decide)
      simpa [Text.joined, argSources, argKinds] using
        harg _ _ (parts_cons (by decide) (by decide)) hcomma

/-- The text of an expression is read as its tokens, whatever stands behind it. -/
theorem Writable.spells (ht : t.Legal) {e : Expr} (hw : e.Writable t) :
    Spells e.source e.kinds := by
  induction hw with
  | number index pos =>
    intro rest more hstop h
    simpa [source, kinds, Double.plainText, Double.signText] using h.number index hstop
  | var hname pos =>
    intro rest more hstop h
    exact h.identifier hname hstop
  | binary hop _ _ pos ihl ihr =>
    intro rest more hstop h
    have hclose := h.symbol (c := ')') (by decide)
    have hright := (ihr _ _ (parts_cons (by decide) (by decide)) hclose).blank (c := ' ') (by decide)
    have hop := (hright.symbol (ht.isAlone hop)).blank (c := ' ') (by decide)
    have hleft := (ihl _ _ (parts_cons (by decide) (by decide)) hop).symbol (c := '(') (by decide)
    simpa [source, kinds] using hleft
  | call hname hargs pos ih =>
    intro rest more hstop h
    have hopen := (scans_args ih h).symbol (c := '(') (by decide)
    simpa [source, kinds] using hopen.identifier hname (parts_cons (by decide) (by decide))

/-- Tokens of the right kinds stand for an expression, up to the places of its nodes. -/
def Reads (t : Table) (levels : Nat) (e : Expr) : Prop :=
  ∀ ts : List Token, ts.map Token.kind = e.kinds →
    ∃ e', Phrase.Operand t levels ts e' ∧ e'.unplaced = e.unplaced

private theorem exists_arguments {levels : Nat} {args : List Expr} (hne : args ≠ [])
    (hargs : ∀ arg ∈ args, arg.Reads t levels) {ts : List Token}
    (h : ts.map Token.kind = argKinds args) : ∃ args',
      Phrase.Arguments (Phrase.Expression t levels) ts args' ∧
        unplacedArgs args' = unplacedArgs args := by
  induction args generalizing ts with
  | nil => exact absurd rfl hne
  | cons arg args ih =>
    cases args with
    | nil =>
      obtain ⟨us, vs, rfl, hus, hvs⟩ := List.map_eq_append_iff.mp h
      obtain ⟨closing, rfl, hclose⟩ := List.map_eq_singleton_iff.mp hvs
      obtain ⟨arg', harg, hunplaced⟩ := hargs arg (by simp) us hus
      refine ⟨[arg'], .last harg.expression (Token.isSymbol_iff.mpr hclose), ?_⟩
      simp only [unplacedArgs, hunplaced]
    | cons next args =>
      obtain ⟨us, vs, rfl, hus, hvs⟩ := List.map_eq_append_iff.mp h
      obtain ⟨comma, ws, rfl, hcomma, hws⟩ := List.map_eq_cons_iff.mp hvs
      obtain ⟨arg', harg, hunplaced⟩ := hargs arg (by simp) us hus
      obtain ⟨args', hargs', hunplaced'⟩ :=
        ih (by simp) (fun e he => hargs e (List.mem_cons_of_mem arg he)) hws
      refine ⟨arg' :: args', .more harg.expression (Token.isSymbol_iff.mpr hcomma) hargs', ?_⟩
      rw [unplacedArgs, unplacedArgs, hunplaced, hunplaced']

/-- A binary operation stands in brackets, so the strength of its operator does not matter. -/
theorem exists_bracketed {levels : Nat} {c : Char} {n : Int} {left right : Expr} {pos : Pos}
    (hop : t.strength? c = some n) (hleft : left.Reads t levels) (hright : right.Reads t levels)
    {ts : List Token} (h : ts.map Token.kind = kinds (.binary (String.singleton c) left right pos)) :
    ∃ opening us closing e', ts = opening :: (us ++ [closing]) ∧ opening.isSymbol '(' = true ∧
      closing.isSymbol ')' = true ∧ Phrase.Expression t levels us e' ∧
      e'.unplaced = unplaced (.binary (String.singleton c) left right pos) := by
  simp only [kinds, String.toList_singleton, List.map_cons, List.map_nil, List.append_assoc,
    List.map_eq_cons_iff, List.map_eq_append_iff, List.map_eq_nil_iff, List.cons_append,
    List.nil_append] at h
  obtain ⟨opening, _, rfl, hopen, us, _, rfl, hus, operator, _, rfl, hoperator, vs, _, rfl, hvs,
    closing, _, rfl, hclose, rfl⟩ := h
  obtain ⟨left', hleft, hl⟩ := hleft us hus
  obtain ⟨right', hright, hr⟩ := hright vs hvs
  have hadmitted : t.isOperator operator = true := Table.isOperator_iff.mpr ⟨c, n, hoperator, hop⟩
  refine ⟨opening, us ++ operator :: vs, closing, _, by simp, Token.isSymbol_iff.mpr hopen,
    Token.isSymbol_iff.mpr hclose, hleft.joined hadmitted hright, ?_⟩
  rw [joinLink, unplaced, unplaced, hl, hr, hoperator, TokenKind.typeName]

private theorem depth_le_argsDepth {arg : Expr} {args : List Expr} (h : arg ∈ args) :
    arg.depth ≤ argsDepth args := by
  induction h with
  | head => exact Nat.le_max_left _ _
  | tail _ _ ih => exact Nat.le_trans ih (Nat.le_max_right _ _)

/-- The tokens that a writable expression is written with stand for that expression. -/
theorem Writable.reads {e : Expr} (hw : e.Writable t) {levels : Nat} (hlevels : e.depth ≤ levels) :
    e.Reads t levels := by
  induction hw generalizing levels with
  | number index pos =>
    obtain ⟨levels, rfl⟩ := Nat.exists_eq_add_of_le' hlevels
    intro ts h
    obtain ⟨token, rfl, htoken⟩ := List.map_eq_singleton_iff.mp h
    exact ⟨_, Phrase.OperandOver.number htoken, rfl⟩
  | var hname pos =>
    obtain ⟨levels, rfl⟩ := Nat.exists_eq_add_of_le' hlevels
    intro ts h
    obtain ⟨token, rfl, htoken⟩ := List.map_eq_singleton_iff.mp h
    exact ⟨_, Phrase.OperandOver.name htoken, rfl⟩
  | @binary _ _ left right hop _ _ pos ihl ihr =>
    rw [depth] at hlevels
    obtain ⟨levels, rfl⟩ := Nat.exists_eq_add_of_le' (Nat.le_trans (Nat.le_add_left 1 _) hlevels)
    have hleft : left.Reads t levels := ihl (by omega)
    have hright : right.Reads t levels := ihr (by omega)
    intro ts h
    obtain ⟨opening, us, closing, e', rfl, hopen, hclose, he', hunplaced⟩ :=
      exists_bracketed hop hleft hright h
    exact ⟨e', Phrase.OperandOver.bracketed hopen he' hclose, hunplaced⟩
  | @call callee args hname hargs pos ih =>
    rw [depth] at hlevels
    obtain ⟨levels, rfl⟩ := Nat.exists_eq_add_of_le' (Nat.le_trans (Nat.le_add_left 1 _) hlevels)
    have hreads (arg : Expr) (harg : arg ∈ args) : arg.Reads t levels := by
      have hdepth := depth_le_argsDepth harg
      exact ih arg harg (by omega)
    intro ts h
    obtain ⟨token, _, rfl, htoken, h⟩ := List.map_eq_cons_iff.mp h
    obtain ⟨opening, us, rfl, hopening, hus⟩ := List.map_eq_cons_iff.mp h
    have hopen := Token.isSymbol_iff.mpr hopening
    by_cases hne : args = []
    · subst hne
      obtain ⟨closing, rfl, hclosing⟩ := List.map_eq_singleton_iff.mp hus
      exact ⟨_, Phrase.OperandOver.emptyCall htoken hopen (Token.isSymbol_iff.mpr hclosing), rfl⟩
    · obtain ⟨args', hargs', hunplaced⟩ := exists_arguments hne hreads hus
      exact ⟨_, Phrase.OperandOver.call htoken hopen hargs', by rw [unplaced, unplaced, hunplaced]⟩

/-- An expression reads back from its source text for every table that has its operators. -/
theorem parseExpression_source (ht : t.Legal) {levels : Nat} {e : Expr} (hw : e.Writable t)
    (hn : textNesting e.source < levels) :
    ∃ e', parseExpression t levels e.source = .ok e' ∧ e'.unplaced = e.unplaced := by
  obtain ⟨ts, htokens, hkinds⟩ := (hw.spells ht).tokenize
  obtain ⟨e', he', hunplaced⟩ := hw.reads (Nat.le_refl _) ts hkinds
  rw [textNesting_eq htokens] at hn
  exact ⟨e', (parseExpression_eq_ok_iff ht htokens).mpr (he'.expression.of_nesting ht hn), hunplaced⟩

/-- Without the brackets this would be read as a difference whose right side is a product. -/
theorem parseExpression_source_product :
    ∃ e', parseExpression .standard 150 "((x - f()) * y)" = .ok e' ∧
      e'.unplaced = .binary "*" (.binary "-" (.var "x" .start) (.call "f" [] .start) .start)
        (.var "y" .start) .start := by
  let e : Expr := .binary "*" (.binary "-" (.var "x" .start) (.call "f" [] .start) .start)
    (.var "y" .start) .start
  have hw : e.Writable .standard := .binary (c := '*') (n := 40) rfl
    (.binary (c := '-') (n := 20) rfl (.var (by decide +kernel) _)
      (.call (by decide +kernel) (by simp) _) _)
    (.var (by decide +kernel) _) _
  have hn : textNesting e.source < 150 :=
    Nat.lt_of_le_of_lt (hw.spells Table.standard_legal).textNesting_le (by decide)
  have hsource : e.source = "((x - f()) * y)" := by cbv
  rw [← hsource]
  exact parseExpression_source Table.standard_legal hw hn

end Expr
end ExprLang
