import ExprLang.Proofs.Lexing.Operation
import ExprLang.Proofs.Reading.Segment
import ExprLang.Proofs.Reading.Walk
import ExprLang.Proofs.Writing.Program
import ExprLang.Tree.Emitter

/-! What is read from a text is well formed, as those who take the tree apart expect it: they may
find nodes of the wrong kind in no place, and they can write it down as a text that is read
again. -/
namespace ExprLang

/-- Lines and columns are counted from one. -/
structure Pos.Counted (p : Pos) : Prop where
  line : 1 ≤ p.line
  column : 1 ≤ p.column

private theorem Pos.Counted.afterAll {p : Pos} (h : p.Counted) (cs : List Char) :
    (p.afterAll cs).Counted := by
  have hline := h.line
  have hcolumn := h.column
  rw [afterAll_eq_behind]
  constructor
  · simp only [behind]
    omega
  · simp only [behind]
    split <;> omega

private theorem Reports.pos_eq {place : Pos} {lexeme : List Char} {token : Token}
    (h : Reports place lexeme (.ok token)) : token.pos = place := by
  cases h <;> rfl

namespace Cursor

private theorem lexeme?_counted {c after : Cursor} {found : Lexed}
    (h : c.lexeme? = some (found, after)) (hc : c.pos.Counted) :
    after.pos.Counted ∧ ∀ token, found = .ok token → token.pos.Counted := by
  obtain ⟨cs, pos⟩ := c
  rcases trivia_or_lexeme ⟨cs, pos⟩ with hgap | ⟨gap, lexeme, rest, rfl, hgap, hlexeme⟩
  · cases h.symm.trans (lexeme?_trivia hgap pos)
  · obtain ⟨_, hfound, h'⟩ := lexeme?_append hgap hlexeme pos
    cases h.symm.trans h'
    refine ⟨hc.afterAll _, ?_⟩
    rintro token rfl
    rw [hfound.pos_eq]
    exact hc.afterAll gap

private theorem lexemes_counted (c : Cursor) (hc : c.pos.Counted) :
    ∀ found ∈ c.lexemes, ∀ token, found.1 = .ok token → token.pos.Counted := by
  induction c using lexemes.induct with
  | case1 c h => simp [lexemes_eq_nil h]
  | case2 c found after h ih =>
    obtain ⟨hafter, hfound⟩ := lexeme?_counted h hc
    rw [lexemes_eq_cons h]
    exact List.forall_mem_cons.mpr ⟨hfound, ih hafter⟩

end Cursor

/-- A token that may be found at a place of a text. -/
structure Token.Placed (token : Token) : Prop where
  lexable : token.kind.Lexable
  counted : token.pos.Counted

theorem placed_of_mem_lexemes {text : String} {token : Token}
    (h : .ok token ∈ (Cursor.ofText text .start).lexemes.map (·.1)) : token.Placed := by
  have hstart : (Cursor.ofText text .start).pos.Counted := ⟨Int.le_refl 1, Int.le_refl 1⟩
  obtain ⟨found, hfound, he⟩ := List.mem_map.mp h
  exact ⟨mem_lexemes text h, Cursor.lexemes_counted _ hstart found hfound token he⟩

theorem placed_of_tokenize {text : String} {ts : List Token} (h : tokenize text = .ok ts) :
    ∀ token ∈ ts, token.Placed := by
  rw [tokenize_eq_ok_iff] at h
  intro token htoken
  have hmem : .ok token ∈ (Cursor.ofText text .start).lexemes.map (·.1) := by
    rw [h]
    exact List.mem_map_of_mem htoken
  exact placed_of_mem_lexemes hmem

namespace Node

/-- A node that is an expression throughout. Numbers are finite and have no sign, names are
identifiers, and operators are those of a table. -/
inductive IsExpression (t : Table) : Node → Prop
  | number (index : Fin magnitudeCount) {pos : Pos} (hpos : pos.Counted) :
      IsExpression t (.number (.finite false index) pos)
  | var {name : String} {pos : Pos} (hname : Text.isIdentifier name = true) (hpos : pos.Counted) :
      IsExpression t (.var name pos)
  | binary {c : Char} {n : Int} {left right : Node} {pos : Pos} (hop : (c, n) ∈ t.entries)
      (hleft : IsExpression t left) (hright : IsExpression t right) (hpos : pos.Counted) :
      IsExpression t (.binary (String.singleton c) left right pos)
  | call {callee : String} {args : List Node} {pos : Pos} (hname : Text.isIdentifier callee = true)
      (hargs : ∀ arg ∈ args, IsExpression t arg) (hpos : pos.Counted) :
      IsExpression t (.call callee args pos)

/-- A node that is a declaration, a definition or an expression outside of all functions. -/
inductive IsItem (t : Table) : Node → Prop
  | external {proto : Prototype} (hproto : proto.Writable) (hplace : proto.pos.Counted) :
      IsItem t (.prototype proto)
  | definition {proto : Prototype} {body : Node} {pos : Pos} (hproto : proto.Writable)
      (hplace : proto.pos.Counted) (hbody : IsExpression t body) (hpos : pos.Counted) :
      IsItem t (.function (.prototype proto) body pos)
  | expression {proto : Prototype} {body : Node} {pos : Pos} (hproto : proto.Anonymous)
      (hplace : proto.pos.Counted) (hbody : IsExpression t body) (hpos : pos.Counted) :
      IsItem t (.function (.prototype proto) body pos)

end Node

private theorem Expr.mem_toNodes {args : List Expr} {node : Node} (h : node ∈ Expr.toNodes args) :
    ∃ arg ∈ args, node = arg.toNode := by
  induction args with
  | nil => cases h
  | cons arg rest ih =>
    rcases List.mem_cons.mp h with rfl | h
    · exact ⟨arg, by simp, rfl⟩
    · obtain ⟨found, hfound, he⟩ := ih h
      exact ⟨found, List.mem_cons_of_mem _ hfound, he⟩

namespace Phrase
variable {t : Table} {levels : Nat} {ts : List Token}

private theorem isExpression_inherited : Inherited t Token.Placed (·.toNode.IsExpression t) where
  number := by
    intro token value hplaced h
    have hlexable := hplaced.lexable
    rw [h] at hlexable
    obtain ⟨index, rfl⟩ := hlexable
    exact .number index hplaced.counted
  name hplaced h := .var (isIdentifier_of_lexable h hplaced.lexable) hplaced.counted
  call := by
    intro token name args hplaced h hargs
    refine .call (isIdentifier_of_lexable h hplaced.lexable) (fun node hnode => ?_) hplaced.counted
    obtain ⟨arg, harg, rfl⟩ := Expr.mem_toNodes hnode
    exact hargs arg harg
  join := by
    intro left right operator hplaced hop hleft hright
    obtain ⟨c, n, hc, hn⟩ := Table.isOperator_iff.mp hop
    rw [joinLink, hc]
    exact .binary (Table.mem_of_strength? hn) hleft hright hplaced.counted

private theorem Expression.isExpression {e : Expr} (h : Expression t levels ts e)
    (hts : ∀ u ∈ ts, u.Placed) : e.toNode.IsExpression t :=
  isExpression_inherited.expression h hts

private theorem Header.counted {proto : Prototype} (h : Header ts proto)
    (hts : ∀ u ∈ ts, u.Placed) :
    proto.pos.Counted := by
  obtain ⟨_, _, _, _⟩ := h
  exact (hts _ (by simp)).counted

private theorem not_definition {head : Token} (h : head.kind ≠ .defKeyword) :
    ¬ Derives t .definition (head :: ts) := by
  rintro ⟨⟩
  exact h ‹_›

private theorem not_external {head : Token} (h : head.kind ≠ .externKeyword) :
    ¬ Derives t .external (head :: ts) := by
  rintro ⟨⟩
  exact h ‹_›

theorem kind_of_expression {head : Token} (h : Derives t .expression (head :: ts)) :
    head.kind ≠ .defKeyword ∧ head.kind ≠ .externKeyword := by
  obtain ⟨_, _, he, htoken⟩ := h.expression_eq_cons
  cases he
  constructor <;> intro hk <;> simp [Token.isNumber, Token.isName, Token.isSymbol, hk] at htoken

end Phrase

/-- An item was made of tokens. Which kind of item it is tells which phrase they are. -/
structure Item.MadeOf (t : Table) (ts : List Token) (item : Item) : Prop where
  covers : item.Covers t ts
  isItem : item.toNode.IsItem t
  external_iff : (∃ proto, item = .external proto) ↔ Derives t .external ts
  named_iff : (∃ f, item = .function f ∧ f.proto.name ≠ anonymousName) ↔ Derives t .definition ts
  anonymous_iff : (∃ f, item = .function f ∧ f.proto.name = anonymousName) ↔
    Derives t .expression ts

namespace Phrase
variable {t : Table} {levels : Nat} {ts : List Token}

private theorem TopItem.isItem {item : Item} (h : TopItem t levels ts item)
    (hts : ∀ u ∈ ts, u.Placed) :
    item.toNode.IsItem t := by
  cases h with
  | @definition keyword us vs proto body _ hproto hbody =>
    have hus (u : Token) (hu : u ∈ us) : u.Placed := hts u (by simp [hu])
    exact .definition (hproto.writable fun u hu => (hus u hu).lexable) (hproto.counted hus)
      (hbody.isExpression fun u hu => hts u (by simp [hu])) (hts keyword (by simp)).counted
  | @external keyword us proto _ hproto =>
    have hus (u : Token) (hu : u ∈ us) : u.Placed := hts u (by simp [hu])
    exact .external (hproto.writable fun u hu => (hus u hu).lexable) (hproto.counted hus)
  | @expression token us body hbody =>
    have hplace := (hts token (by simp)).counted
    exact .expression ⟨rfl, rfl⟩ hplace (hbody.isExpression hts) hplace

/-- No two of the phrases that an item may be begin in the same way. -/
theorem TopItem.madeOf (ht : t.Legal) {item : Item} (h : TopItem t levels ts item)
    (hts : ∀ u ∈ ts, u.Placed) : item.MadeOf t ts := by
  have hcovers := h.covers ht fun u hu => (hts u hu).lexable
  have hitem := h.isItem hts
  -- The first token rules out the two other phrases, and the name of a function the other kind.
  cases h with
  | @definition keyword us _ proto body hkey hproto hbody =>
    have hname : proto.name ≠ anonymousName :=
      (hproto.writable fun u hu => (hts u (by simp [hu])).lexable).name_ne
    refine ⟨hcovers, hitem, iff_of_false (by simp) (not_external (by simp [hkey])),
      iff_of_true ⟨_, rfl, hname⟩ (.definition hkey hproto.derives hbody.derives),
      iff_of_false ?_ fun h => (kind_of_expression h).1 hkey⟩
    rintro ⟨_, ⟨⟩, hanonymous⟩
    exact hname hanonymous
  | external hkey hproto =>
    exact ⟨hcovers, hitem, iff_of_true ⟨_, rfl⟩ (.external hkey hproto.derives),
      iff_of_false (by simp) (not_definition (by simp [hkey])),
      iff_of_false (by simp) fun h => (kind_of_expression h).2 hkey⟩
  | expression hbody =>
    obtain ⟨hdef, hexternal⟩ := kind_of_expression hbody.derives
    refine ⟨hcovers, hitem, iff_of_false (by simp) (not_external hexternal),
      iff_of_false ?_ (not_definition hdef), iff_of_true ⟨_, rfl, rfl⟩ hbody.derives⟩
    rintro ⟨_, ⟨⟩, hname⟩
    exact hname rfl

end Phrase

/-- Items without a fault are emitted one after the other, each as its text. -/
theorem Emitter.emitAll_toNodes {items : List Item}
    (h : ∀ item ∈ items, item.toNode.itemSource = .ok item.source) (e : Emitter) :
    e.emitAll (items.map Item.toNode) = .ok ⟨e.lines ++ items.map Item.source⟩ := by
  induction items generalizing e with
  | nil => simp [emitAll]
  | cons item rest ih =>
    obtain ⟨hitem, hrest⟩ := List.forall_mem_cons.mp h
    rw [List.map_cons, emitAll, emit, hitem]
    simp only [ih hrest]
    rw [List.append_assoc]
    rfl

private theorem Node.IsItem.params_eq_nil {t : Table} {f : Function}
    (h : (Item.function f).toNode.IsItem t)
    (hname : f.proto.name = anonymousName) : f.proto.params = [] := by
  obtain ⟨proto, body, pos⟩ := f
  cases h with
  | definition hproto _ _ _ => exact absurd hname hproto.name_ne
  | expression hproto _ _ _ => exact hproto.params

/-- What is read from a text is made of nodes in their places, with names, numbers and operators
that can be written. The expressions outside of all functions are those whose function has no name
of its own, and these have no parameters. So all items can be emitted, and what is emitted can be
read. -/
theorem parse_wellFormed {t : Table} (ht : t.Legal) {levels again : Nat} {text : String}
    {items : List Item} (h : parse t levels text = .ok items) :
    (∀ item ∈ items, item.toNode.IsItem t) ∧
    (∃ ts, tokenize text = .ok ts ∧ Segmented (Item.MadeOf t) ts items) ∧
    (∀ f, .function f ∈ items → f.proto.name = anonymousName → f.proto.params = []) ∧
    ∃ e, Emitter.empty.emitAll (items.map Item.toNode) = .ok e ∧
      (∃ ts, tokenize e.output = .ok ts) ∧
      (textNesting e.output < again → ∃ items', parse t again e.output = .ok items') := by
  obtain ⟨ts, htokens, hprogram, hlexable⟩ := exists_program_of_parse ht h
  have hmade : Segmented (Item.MadeOf t) ts items :=
    hprogram.segmented.imp fun us item hus hitem =>
      hitem.madeOf ht fun u hu => placed_of_tokenize htokens u (hus u hu)
  have hitems (item : Item) (hitem : item ∈ items) : item.toNode.IsItem t := by
    obtain ⟨_, hus⟩ := hmade.forall_mem item hitem
    exact hus.isItem
  have hparams (f : Function) (hf : .function f ∈ items) (hname : f.proto.name = anonymousName) :
      f.proto.params = [] := (hitems _ hf).params_eq_nil hname
  have hemitted := Emitter.emitAll_toNodes (fun item hitem => Node.itemSource_toNode item
    fun f hf => hparams f (hf ▸ hitem)) .empty
  have hwritable := hprogram.writable hlexable
  refine ⟨hitems, ⟨ts, htokens, hmade⟩, hparams, _, hemitted, ?_, fun hn => ?_⟩
  · obtain ⟨ts', htokens', _⟩ := (spells_sourceOf ht hwritable).tokenize
    exact ⟨ts', htokens'⟩
  · obtain ⟨items', hparse, _⟩ := parse_sourceOf_of_writable ht hwritable hn
    exact ⟨items', hparse⟩

/-- A declaration and a sum are emitted with brackets around the sum. -/
theorem parse_wellFormed_externalAndSum : ∃ items e items',
    parse .standard 2 "extern f(x) a + b" = .ok items ∧
      (∀ item ∈ items, item.toNode.IsItem .standard) ∧
      Emitter.empty.emitAll (items.map Item.toNode) = .ok e ∧
      e.output = "extern f(x)\n(a + b)" ∧ parse .standard 150 e.output = .ok items' := by
  let word (name : String) (column : Int) : Token := ⟨.identifier name, ⟨1, column⟩⟩
  let mark (c : Char) (column : Int) : Token := ⟨.symbol c, ⟨1, column⟩⟩
  have htokens : tokenize "extern f(x) a + b" = .ok ((⟨.externKeyword, ⟨1, 1⟩⟩ :: word "f" 8 ::
      mark '(' 9 :: ([word "x" 10] ++ [mark ')' 11])) ++ ([word "a" 13] ++ mark '+' 15 ::
        [word "b" 17] ++ [])) := by cbv
  have hname (name : String) (column : Int) : Phrase.Operand .standard 2
      [word name column] (.var name ⟨1, column⟩) := Phrase.OperandOver.name rfl
  have hheader : Phrase.Header (word "f" 8 :: mark '(' 9 :: ([word "x" 10] ++ [mark ')' 11]))
      ⟨"f", ["x"], ⟨1, 8⟩⟩ := .intro rfl rfl (by simp [Token.isName, word]) rfl
  have hplus : Table.standard.isOperator (mark '+' 15) = true := rfl
  have hsum := (hname "a" 13).joined hplus (hname "b" 17)
  have hparse := (parse_eq_ok_iff Table.standard_legal htokens).mpr
    (.item (.external rfl hheader) (fun hends => absurd hends hheader.not_endsInName)
      (.item (.expression hsum) (fun _ => by simp [BeginsWithBracket]) .nil))
  have hspells := spells_sourceOf Table.standard_legal (parse_writable Table.standard_legal hparse)
  have hn := Nat.lt_of_le_of_lt hspells.textNesting_le (by decide : _ < 150)
  obtain ⟨hitems, _, _, e, hemitted, _, hagain⟩ := parse_wellFormed Table.standard_legal hparse
  have he : e = ⟨["extern f(x)", "(a + b)"]⟩ := by
    cases hemitted
    rfl
  subst he
  obtain ⟨items', hparse'⟩ := hagain hn
  exact ⟨_, _, items', hparse, hitems, hemitted, rfl, hparse'⟩

end ExprLang
