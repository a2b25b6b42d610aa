import ExprLang.Proofs.Reading.Acceptance
import ExprLang.Proofs.Writing.Item
import Mathlib.Data.List.Forall2

/-! Trees keep the tokens that they are read from. A walk over the items of a program comes to every
name, number, operator and `def` of its text once, in order and at its place. -/
namespace ExprLang

/-- A stop of a walk over a tree: a value, and its place if the tree records it. -/
structure Mark where
  value : Value
  pos? : Option Pos

namespace Expr

mutual

/-- The walk over an expression, from left to right. A callee comes before its arguments. -/
def marks : Expr → List Mark
  | .number value pos => [⟨.real value, pos⟩]
  | .var name pos => [⟨.text name, pos⟩]
  | .binary operator left right pos => left.marks ++ ⟨.text operator, pos⟩ :: right.marks
  | .call callee args pos => ⟨.text callee, pos⟩ :: argMarks args

def argMarks : List Expr → List Mark
  | [] => []
  | arg :: rest => arg.marks ++ argMarks rest

end

end Expr

/-- The walk over a prototype. Parameters have no places. -/
def Prototype.marks (p : Prototype) : List Mark :=
  ⟨.text p.name, p.pos⟩ :: p.params.map fun name => ⟨.text name, none⟩

/-- The walk over a function. One without a name of its own is nothing but its body. -/
def Function.marks (f : Function) : List Mark :=
  if f.proto.name = anonymousName then f.body.marks
  else ⟨.text "def", f.pos⟩ :: (f.proto.marks ++ f.body.marks)

def Item.marks : Item → List Mark
  | .external proto => proto.marks
  | .function f => f.marks

/-- A stop is at a token: it has the value of the token, and its place if it has one. -/
structure Mark.At (m : Mark) (t : Token) : Prop where
  value_eq : m.value = t.kind.value
  pos_eq : ∀ pos ∈ m.pos?, pos = t.pos

/-- A token that trees keep: no bracket, comma or semicolon, and not `extern`. -/
def Token.isKept (t : Token) : Bool :=
  match t.kind with
  | .externKeyword => false
  | .symbol c => c ∉ ['(', ')', ',', ';']
  | _ => true

/-- A walk stops at exactly the tokens that are kept. -/
def Walks (marks : List Mark) (ts : List Token) : Prop :=
  List.Forall₂ Mark.At marks (ts.filter Token.isKept)

/-- A walk over an item stops at its tokens. A function without a name of its own is an expression,
and it has its place at the first token of it, as has its prototype. -/
structure Item.Covers (t : Table) (item : Item) (ts : List Token) : Prop where
  walks : Walks item.marks ts
  anonymous : ∀ f, item = .function f → f.proto.name = anonymousName →
    Derives t .expression ts ∧ ∃ first ∈ ts.head?, f.pos = first.pos ∧ f.proto.pos = first.pos

/-- Items cover tokens one after the other, with semicolons between them. -/
inductive Covered (t : Table) : List Token → List Item → Prop
  | nil : Covered t [] []
  | semicolon {semi : Token} {ts : List Token} {items : List Item} (hsemi : semi.isSymbol ';' = true)
      (hrest : Covered t ts items) : Covered t (semi :: ts) items
  | item {ts us : List Token} {item : Item} {items : List Item} (hitem : item.Covers t ts)
      (hrest : Covered t us items) : Covered t (ts ++ us) (item :: items)

namespace Walks
variable {marks more : List Mark} {ts us : List Token} {token : Token}

private theorem nil : Walks [] [] := List.Forall₂.nil

private theorem append (h : Walks marks ts) (h' : Walks more us) :
    Walks (marks ++ more) (ts ++ us) := by
  unfold Walks
  rw [List.filter_append]
  exact List.rel_append h h'

private theorem kept {m : Mark} (hkept : token.isKept = true) (hm : m.At token)
    (h : Walks marks ts) :
    Walks (m :: marks) (token :: ts) := by
  unfold Walks
  rw [List.filter_cons_of_pos hkept]
  exact .cons hm h

private theorem dropped (hkept : token.isKept = false) (h : Walks marks ts) :
    Walks marks (token :: ts) := by
  unfold Walks
  rwa [List.filter_cons_of_neg (by simp [hkept])]

private theorem symbol {c : Char} (hc : token.isSymbol c = true) (hmark : c ∈ ['(', ')', ',', ';'])
    (h : Walks marks ts) : Walks marks (token :: ts) := by
  apply h.dropped
  rw [Token.isKept, Token.isSymbol_iff.mp hc]
  exact decide_eq_false (not_not_intro hmark)

private theorem name {name : String} {pos? : Option Pos} (hk : token.kind = .identifier name)
    (hpos : ∀ pos ∈ pos?, pos = token.pos) (h : Walks marks ts) :
    Walks (⟨.text name, pos?⟩ :: marks) (token :: ts) :=
  h.kept (by simp [Token.isKept, hk]) ⟨by simp [hk, TokenKind.value], hpos⟩

end Walks

namespace Grouping

def linkMarks (link : Link) : List Mark :=
  ⟨.text link.1.kind.typeName, link.1.pos⟩ :: link.2.marks

/-- However a chain is grouped, the walk over its tree goes along the chain. -/
theorem marks_tree (g : Grouping) : g.tree.marks = g.first.marks ++ g.links.flatMap linkMarks := by
  induction g with
  | operand e => simp [tree, first, links]
  | join left operator right ihl ihr =>
    simp [tree, first, links, joinLink, Expr.marks, ihl, ihr, linkMarks]

end Grouping

namespace Phrase
variable {t : Table} {inner operand : Phrase Expr} {ts : List Token}

private theorem Arguments.walks (hinner : ∀ us e, inner us e → Walks e.marks us)
    {args : List Expr} (h : Arguments inner ts args) : Walks (Expr.argMarks args) ts := by
  induction h with
  | last harg hclose =>
    exact (hinner _ _ harg).append (Walks.nil.symbol hclose (by simp))
  | more harg hcomma _ ih =>
    exact (hinner _ _ harg).append (ih.symbol hcomma (by simp))

private theorem OperandOver.walks (hinner : ∀ us e, inner us e → Walks e.marks us) {e : Expr}
    (h : OperandOver inner ts e) : Walks e.marks ts := by
  cases h with
  | number h => exact .kept (by simp [Token.isKept, h]) ⟨by simp [h, TokenKind.value], by simp⟩ .nil
  | name h => exact .name h (by simp) .nil
  | emptyCall h hopen hclose =>
    exact .name h (by simp) ((Walks.nil.symbol hclose (by simp)).symbol hopen (by simp))
  | call h hopen hargs => exact .name h (by simp) ((hargs.walks hinner).symbol hopen (by simp))
  | bracketed hopen h hclose =>
    have hinside := (hinner _ _ h).append (Walks.nil.symbol hclose (by simp))
    rw [List.append_nil] at hinside
    exact hinside.symbol hopen (by simp)

private theorem walks_operator (ht : t.Legal) {operator : Token}
    (hop : t.isOperator operator = true) {marks : List Mark} (h : Walks marks ts) :
    Walks (⟨.text operator.kind.typeName, operator.pos⟩ :: marks) (operator :: ts) := by
  obtain ⟨c, _, hc, _⟩ := Table.isOperator_iff.mp hop
  have hmark {d : Char} (hd : d ∈ reservedChars) : c ≠ d := by
    rintro rfl
    simpa [Token.isSymbol, hc] using ht.isSymbol_eq_false hop hd
  have hkept : operator.isKept = true := by
    simp [Token.isKept, hc, hmark (d := '(') (by decide), hmark (d := ')') (by decide),
      hmark (d := ',') (by decide), hmark (d := ';') (by decide)]
  exact h.kept hkept ⟨by simp [hc, TokenKind.typeName, TokenKind.value], by simp⟩

private theorem Links.walks (ht : t.Legal) (hoperand : ∀ us e, operand us e → Walks e.marks us)
    {links : List Link} (h : Links (t.isOperator · = true) operand ts links) :
    Walks (links.flatMap Grouping.linkMarks) ts := by
  induction h with
  | nil => exact .nil
  | cons hop hright _ ih => exact walks_operator ht hop ((hoperand _ _ hright).append ih)

private theorem ExpressionOver.walks (ht : t.Legal)
    (hoperand : ∀ us e, operand us e → Walks e.marks us) {e : Expr}
    (h : ExpressionOver t operand ts e) : Walks e.marks ts := by
  cases h with
  | @chain _ _ first links hfirst hlinks =>
    obtain ⟨g, hg, _, rfl, rfl⟩ := Grouping.shuntingYard_eq_tree t.strength first links
    rw [hg, g.marks_tree]
    exact (hoperand _ _ hfirst).append (hlinks.walks ht hoperand)

private theorem Operand.walks (ht : t.Legal) {levels : Nat} {ts : List Token} {e : Expr}
    (h : Operand t levels ts e) : Walks e.marks ts := by
  induction levels generalizing ts e with
  | zero => exact h.elim
  | succ levels ih => exact OperandOver.walks (fun _ _ => ExpressionOver.walks ht fun _ _ => ih) h

private theorem Expression.walks (ht : t.Legal) {levels : Nat} {e : Expr}
    (h : Expression t levels ts e) :
    Walks e.marks ts := ExpressionOver.walks ht (fun _ _ => Operand.walks ht) h

private theorem Header.walks {proto : Prototype} (h : Header ts proto) : Walks proto.marks ts := by
  obtain ⟨hname, hopen, hparams, hclose⟩ := h
  refine .name hname (by simp) (.symbol hopen (by simp) ?_)
  rename_i closing name params
  induction params with
  | nil => exact Walks.nil.symbol hclose (by simp)
  | cons param params ih =>
    obtain ⟨name, hk⟩ := Token.isName_iff.mp (hparams param (by simp))
    rw [List.map_cons, List.map_cons, Token.valueText_of_kind hk]
    exact (ih fun p hp => hparams p (List.mem_cons_of_mem _ hp)).name hk (by simp)

theorem TopItem.covers (ht : t.Legal) {levels : Nat} {item : Item} (h : TopItem t levels ts item)
    (hlexable : AllLexable ts) : item.Covers t ts := by
  cases h with
  | @definition keyword us vs proto body hkey hproto hbody =>
    have hname : proto.name ≠ anonymousName := by
      obtain ⟨hk, _, _, _⟩ := hproto
      intro hname
      have hidentifier := isIdentifier_of_lexable hk (hlexable _ (by simp))
      obtain rfl : _ = anonymousName := hname
      simp [isIdentifier_anonymousName] at hidentifier
    have hwalk := hproto.walks.append (hbody.walks ht)
    refine ⟨?_, fun f hf hanonymous => ?_⟩
    · rw [Item.marks, Function.marks, if_neg hname]
      exact hwalk.kept (by simp [Token.isKept, hkey]) ⟨by simp [hkey, TokenKind.value], by simp⟩
    · cases hf
      exact absurd hanonymous hname
  | external hkey hproto =>
    exact ⟨hproto.walks.dropped (by simp [Token.isKept, hkey]), by simp⟩
  | expression hbody =>
    refine ⟨?_, fun f hf _ => ?_⟩
    · have hwalk := hbody.walks ht
      simpa [Item.marks, Function.marks, Function.anonymous] using hwalk
    · cases hf
      exact ⟨hbody.derives, _, rfl, rfl, rfl⟩

private theorem Program.covered (ht : t.Legal) {levels : Nat} {items : List Item}
    (h : Program t levels ts items) (hlexable : AllLexable ts) : Covered t ts items := by
  induction h with
  | nil => exact .nil
  | semicolon hsemi _ ih => exact .semicolon hsemi (ih fun u hu => hlexable u (by simp [hu]))
  | item hitem _ _ ih =>
    exact .item (hitem.covers ht fun u hu => hlexable u (by simp [hu]))
      (ih fun u hu => hlexable u (by simp [hu]))

end Phrase

/-- The walk over all items stops at all tokens that are kept. -/
theorem Covered.walks {t : Table} {ts : List Token} {items : List Item} (h : Covered t ts items) :
    Walks (items.flatMap Item.marks) ts := by
  induction h with
  | nil => exact .nil
  | semicolon hsemi _ ih => exact ih.symbol hsemi (by simp)
  | item hitem _ ih => exact hitem.walks.append ih

/-- A program that is read keeps every token of its text but brackets, commas, semicolons and
`extern`, once and in order, with the place of each that has one. Its items cover the text one after
the other. -/
theorem parse_walks {t : Table} (ht : t.Legal) {levels : Nat} {text : String} {items : List Item}
    (h : parse t levels text = .ok items) : ∃ ts, tokenize text = .ok ts ∧
      List.Forall₂ Mark.At (items.flatMap Item.marks) (ts.filter Token.isKept) ∧
      Covered t ts items := by
  obtain ⟨s, hbegin⟩ : ∃ s, begin? text = .ok s := by
    cases hbegin : begin? text with
    | ok s => exact ⟨s, rfl⟩
    | error e =>
      rw [parse, hbegin] at h
      cases h
  obtain ⟨s', ts, hpass, hend, hts⟩ := (parse_of_begin_eq_ok_iff ht hbegin).mp h
  have hcovered := hts.covered ht ((sound_of_begin? hbegin).passes hpass)
  exact ⟨ts, tokenize_of_passes hbegin hpass hend, hcovered.walks, hcovered⟩

/-- A definition, and an expression that begins with a bracket, at which its function is. -/
theorem parse_walks_definition_and_brackets : ∃ items ts,
    parse .standard 2 "def f(x) x; (x - y)" = .ok items ∧ tokenize "def f(x) x; (x - y)" = .ok ts ∧
      List.Forall₂ Mark.At (items.flatMap Item.marks) (ts.filter Token.isKept) ∧
      Covered .standard ts items := by
  let word (name : String) (column : Int) : Token := ⟨.identifier name, ⟨1, column⟩⟩
  let mark (c : Char) (column : Int) : Token := ⟨.symbol c, ⟨1, column⟩⟩
  have htokens : tokenize "def f(x) x; (x - y)" = .ok ([⟨.defKeyword, ⟨1, 1⟩⟩, word "f" 5,
      mark '(' 6, word "x" 7, mark ')' 8, word "x" 10, mark ';' 11, mark '(' 13, word "x" 14,
      mark '-' 16, word "y" 18, mark ')' 19]) := by cbv
  have hname (levels : Nat) (name : String) (column : Int) : Phrase.Operand .standard (levels + 1)
      [word name column] (.var name ⟨1, column⟩) := Phrase.OperandOver.name rfl
  have hheader : Phrase.Header (word "f" 5 :: mark '(' 6 :: ([word "x" 7] ++ [mark ')' 8]))
      ⟨"f", ["x"], ⟨1, 5⟩⟩ := .intro rfl rfl (by simp [Token.isName, word]) rfl
  have hbrackets : Phrase.Operand .standard 2
      (mark '(' 13 :: (([word "x" 14] ++ mark '-' 16 :: [word "y" 18]) ++ [mark ')' 19])) _ :=
    Phrase.OperandOver.bracketed rfl ((hname _ "x" 14).joined rfl (hname _ "y" 18)) rfl
  have hlast : Phrase.Program .standard 2 (_ ++ []) _ :=
    .item (.expression hbrackets.expression) (fun _ => by simp [BeginsWithBracket]) .nil
  have hparse := (parse_eq_ok_iff Table.standard_legal htokens).mpr
    (.item (.definition rfl hheader (hname _ "x" 10).expression)
      (fun _ => by simp [BeginsWithBracket, mark, Token.isSymbol]) (.semicolon rfl hlast))
  obtain ⟨ts, h⟩ := parse_walks Table.standard_legal hparse
  exact ⟨_, ts, hparse, h⟩

end ExprLang
