import ExprLang.Proofs.Reading.Phrase
import ExprLang.Reader.Program

/-! Items and programs with the trees that they stand for. The grammar leaves a choice where a name
is followed by brackets; here they are always a call. -/
namespace ExprLang

namespace Phrase

/-- A name and its parameters in brackets. -/
inductive Header : Phrase Prototype
  | intro {token opening closing : Token} {name : String} {params : List Token}
      (h : token.kind = .identifier name) (hopen : opening.isSymbol '(' = true)
      (hparams : ∀ param ∈ params, param.isName = true) (hclose : closing.isSymbol ')' = true) :
      Header (token :: opening :: (params ++ [closing]))
        ⟨name, params.map Token.valueText, token.pos⟩

/-- An item of a program. -/
inductive TopItem (t : Table) (levels : Nat) : Phrase Item
  | definition {keyword : Token} {ts us : List Token} {proto : Prototype} {body : Expr}
      (hkey : keyword.kind = .defKeyword) (hproto : Header ts proto)
      (hbody : Expression t levels us body) :
      TopItem t levels (keyword :: (ts ++ us)) (.function ⟨proto, body, keyword.pos⟩)
  | external {keyword : Token} {ts : List Token} {proto : Prototype}
      (hkey : keyword.kind = .externKeyword) (hproto : Header ts proto) :
      TopItem t levels (keyword :: ts) (.external proto)
  | expression {token : Token} {ts : List Token} {body : Expr}
      (hbody : Expression t levels (token :: ts) body) :
      TopItem t levels (token :: ts) (.function (.anonymous body token.pos))

/-- Items one after the other, with semicolons between them. An item is not called by what stands
behind it. -/
inductive Program (t : Table) (levels : Nat) : Phrase (List Item)
  | nil : Program t levels [] []
  | semicolon {semi : Token} {ts : List Token} {items : List Item} (hsemi : semi.isSymbol ';' = true)
      (hrest : Program t levels ts items) : Program t levels (semi :: ts) items
  | item {ts us : List Token} {item : Item} {items : List Item} (hitem : TopItem t levels ts item)
      (hcall : EndsInName ts → ¬ BeginsWithBracket us)
      (hrest : Program t levels us items) : Program t levels (ts ++ us) (item :: items)

variable {t : Table} {levels : Nat} {ts us : List Token}

theorem Header.derives {proto : Prototype} (h : Header ts proto) : Derives t .prototype ts := by
  obtain ⟨h, hopen, hparams, hclose⟩ := h
  exact .prototype (Token.isName_iff.mpr ⟨_, h⟩) hopen hparams hclose

theorem Header.ne_nil {proto : Prototype} (h : Header ts proto) : ts ≠ [] := by
  obtain ⟨_, _, _, _⟩ := h
  simp

theorem Header.not_endsInName {proto : Prototype} (h : Header ts proto) : ¬ EndsInName ts := by
  obtain ⟨h, hopen, hparams, hclose⟩ := h
  rw [endsInName_cons (by simp), endsInName_cons (by simp), endsInName_concat]
  simp [Token.isName_eq_false hclose]

theorem exists_header (h : Derives t .prototype ts) : ∃ proto, Header ts proto := by
  cases h with
  | prototype hname hopen hparams hclose =>
    obtain ⟨name, hname⟩ := Token.isName_iff.mp hname
    exact ⟨_, .intro hname hopen hparams hclose⟩

private theorem TopItem.eq_cons {item : Item} (h : TopItem t levels ts item) : ∃ token rest,
    ts = token :: rest ∧ (token.kind = .defKeyword ∨ token.kind = .externKeyword ∨
      token.isNumber = true ∨ token.isName = true ∨ token.isSymbol '(' = true) := by
  cases h with
  | definition hkey _ _ => exact ⟨_, _, rfl, .inl hkey⟩
  | external hkey _ => exact ⟨_, _, rfl, .inr (.inl hkey)⟩
  | expression hbody =>
    obtain ⟨token, rest, he, htoken⟩ := hbody.derives.expression_eq_cons
    exact ⟨token, rest, he, .inr (.inr htoken)⟩

theorem TopItem.derives {item : Item} (h : TopItem t levels ts item) :
    Derives t .definition ts ∨ Derives t .external ts ∨ Derives t .expression ts := by
  cases h with
  | definition hkey hproto hbody => exact .inl (.definition hkey hproto.derives hbody.derives)
  | external hkey hproto => exact .inr (.inl (.external hkey hproto.derives))
  | expression hbody => exact .inr (.inr hbody.derives)

theorem TopItem.balance_eq_zero (ht : t.Legal) {item : Item} (h : TopItem t levels ts item) :
    balance ts = 0 := by
  rcases h.derives with h | h | h <;> exact h.balance_eq_zero ht

theorem Program.derives {items : List Item} (h : Program t levels ts items) :
    Derives t .program ts := by
  induction h with
  | nil => exact .noItem
  | semicolon hsemi _ ih => exact .semicolon hsemi ih
  | item hitem _ _ ih =>
    rcases hitem.derives with h | h | h
    · exact .definitionItem h ih
    · exact .externalItem h ih
    · exact .expressionItem h ih

/-- Nothing stands for no items but semicolons. -/
theorem Program.nil_iff {items : List Item} : Program t levels [] items ↔ items = [] := by
  constructor
  · intro h
    generalize hts : ([] : List Token) = ts at h
    cases h with
    | nil => rfl
    | semicolon _ _ => cases hts
    | item hitem _ _ =>
      obtain ⟨token, rest, rfl, _⟩ := hitem.eq_cons
      cases hts
  · rintro rfl
    exact .nil

/-- A semicolon in front of a program stands for nothing. -/
theorem Program.semicolon_iff {semi : Token} (hsemi : semi.isSymbol ';' = true)
    {items : List Item} : Program t levels (semi :: ts) items ↔ Program t levels ts items := by
  constructor
  · intro h
    generalize hts : semi :: ts = us at h
    cases h with
    | nil => cases hts
    | semicolon _ hrest =>
      cases hts
      exact hrest
    | item hitem _ _ =>
      obtain ⟨token, rest, rfl, htoken⟩ := hitem.eq_cons
      cases hts
      have hk := Token.isSymbol_iff.mp hsemi
      simp [hk, Token.isNumber, Token.isName, Token.isSymbol] at htoken
  · exact .semicolon hsemi

/-- A program that does not begin with a semicolon begins with an item. -/
theorem Program.eq_item {items : List Item} {head : Token} (h : Program t levels (head :: ts) items)
    (hhead : ¬ head.isSymbol ';' = true) : ∃ us vs item rest, head :: ts = us ++ vs ∧
      items = item :: rest ∧ TopItem t levels us item ∧
      (EndsInName us → ¬ BeginsWithBracket vs) ∧ Program t levels vs rest := by
  generalize hts : head :: ts = us at h
  cases h with
  | nil => cases hts
  | semicolon hsemi _ =>
    cases hts
    exact absurd hsemi hhead
  | item hitem hcall hrest => exact ⟨_, _, _, _, rfl, rfl, hitem, hcall, hrest⟩

theorem TopItem.ne_nil {item : Item} (h : TopItem t levels ts item) : ts ≠ [] := by
  obtain ⟨token, rest, rfl, _⟩ := h.eq_cons
  simp

theorem TopItem.not_endsInName {item : Item} (h : TopItem t levels ts item)
    (hkey : ∃ head ∈ ts.head?, head.kind = .externKeyword) : ¬ EndsInName ts := by
  obtain ⟨head, hhead, hkey⟩ := hkey
  cases h with
  | definition h _ _ =>
    cases hhead
    simp [h] at hkey
  | external _ hproto =>
    rw [endsInName_cons hproto.ne_nil]
    exact hproto.not_endsInName
  | expression hbody =>
    obtain ⟨_, _, he, htoken⟩ := hbody.derives.expression_eq_cons
    cases he
    cases hhead
    simp [Token.isNumber, Token.isName, Token.isSymbol, hkey] at htoken

/-- A program begins with a semicolon, a keyword or an operand, and none of these is an operator. -/
theorem Program.isOperator_head (ht : t.Legal) {items : List Item}
    (h : Program t levels ts items) : ∀ head ∈ ts.head?, t.isOperator head = false := by
  intro head hhead
  rw [Bool.eq_false_iff]
  intro hop
  obtain ⟨c, n, hc, hn⟩ := Table.isOperator_iff.mp hop
  cases h with
  | nil => simp at hhead
  | semicolon hsemi _ =>
    cases hhead
    simp [ht.isSymbol_eq_false hop (c := ';') (by decide)] at hsemi
  | item hitem _ _ =>
    obtain ⟨token, rest, rfl, htoken⟩ := hitem.eq_cons
    cases hhead
    have hopen := ht.isSymbol_eq_false hop (c := '(') (by decide)
    simp [hc, Token.isNumber, Token.isName, hopen] at htoken

private theorem Program.eq_expression {items : List Item} (h : Program t levels ts items)
    (hbegins : BeginsWithBracket ts) : ∃ us vs items, ts = us ++ vs ∧ Derives t .expression us ∧
      BeginsWithBracket us ∧ (EndsInName us → ¬ BeginsWithBracket vs) ∧
      Program t levels vs items := by
  obtain ⟨head, hhead, hopen⟩ := hbegins
  have hk := Token.isSymbol_iff.mp hopen
  cases h with
  | nil => simp at hhead
  | semicolon hsemi _ =>
    cases hhead
    simp [Token.isSymbol, hk] at hsemi
  | item hitem hcall hrest =>
    cases hitem with
    | definition hkey _ _ =>
      cases hhead
      simp [hk] at hkey
    | external hkey _ =>
      cases hhead
      simp [hk] at hkey
    | expression hbody =>
      cases hhead
      exact ⟨_, _, _, rfl, hbody.derives, ⟨_, rfl, hopen⟩, hcall, hrest⟩

private theorem Program.extend (ht : t.Legal) {items : List Item} (h : Program t levels us items)
    (hbody : Derives t .expression ts) (hn : nesting (ts ++ us) < levels) :
    ∃ vs ws body items, ts ++ us = vs ++ ws ∧ Expression t levels vs body ∧
      (EndsInName vs → ¬ BeginsWithBracket ws) ∧ Program t levels ws items := by
  by_cases hcall : EndsInName ts ∧ BeginsWithBracket us
  · obtain ⟨hends, hbegins⟩ := hcall
    obtain ⟨vs, ws, items, rfl, hvs, hbegins, hcall, hws⟩ := h.eq_expression hbegins
    rw [← List.append_assoc] at hn ⊢
    obtain ⟨body, he⟩ := exists_expression ht (hbody.expression_append hends hvs hbegins)
      (Nat.lt_of_le_of_lt (nesting_append_left _ _) hn)
    rw [← endsInName_append hvs.expression_ne_nil] at hcall
    exact ⟨_, _, body, items, rfl, he, hcall, hws⟩
  · obtain ⟨body, he⟩ := exists_expression ht hbody
      (Nat.lt_of_le_of_lt (nesting_append_left _ _) hn)
    exact ⟨_, _, body, items, rfl, he, not_and.mp hcall, h⟩

/-- The header of a definition closes the brackets that it opens. -/
theorem balance_definition (ht : t.Legal) {keyword : Token} (hkey : keyword.kind = .defKeyword)
    (hproto : Derives t .prototype ts) : balance (keyword :: ts) = 0 := by
  rw [balance, hproto.balance_eq_zero ht]
  simp [bracketWeight, Token.isSymbol, hkey]

/-- What the grammar derives as a program stands for items, however it was derived. -/
theorem exists_program (ht : t.Legal) (h : Derives t .program ts) (hn : nesting ts < levels) :
    ∃ items, Program t levels ts items := by
  have hrest {k : Nonterminal} {us vs : List Token} (h : Derives t k us)
      (hn : nesting (us ++ vs) < levels) : nesting vs < levels :=
    Nat.lt_of_le_of_lt (nesting_append_right (h.balance_eq_zero ht) vs) hn
  generalize hk : Nonterminal.program = k at h
  induction h <;> cases hk
  case noItem => exact ⟨[], .nil⟩
  case semicolon hsemi _ ih =>
    obtain ⟨items, hus⟩ := ih (hrest (.semicolon hsemi .noItem) hn) rfl
    exact ⟨items, .semicolon hsemi hus⟩
  case definitionItem hitem _ _ ih =>
    obtain ⟨items, hus⟩ := ih (hrest hitem hn) rfl
    cases hitem with
    | @definition keyword header body hkey hproto hbody =>
      obtain ⟨proto, hheader⟩ := exists_header hproto
      have hkeyword := balance_definition ht hkey hproto
      rw [List.cons_append, List.append_assoc, ← List.cons_append] at hn
      obtain ⟨vs, ws, e, items, he, hvs, hcall, hws⟩ := hus.extend ht hbody
        (Nat.lt_of_le_of_lt (nesting_append_right hkeyword _) hn)
      have hne := hvs.derives.expression_ne_nil
      rw [← endsInName_append hne, ← endsInName_cons (by simp [hne])] at hcall
      refine ⟨.function ⟨proto, e, keyword.pos⟩ :: items, ?_⟩
      rw [List.cons_append, List.append_assoc, he]
      simpa using Program.item (.definition hkey hheader hvs) hcall hws
  case externalItem hitem _ _ ih =>
    obtain ⟨items, hus⟩ := ih (hrest hitem hn) rfl
    cases hitem with
    | external hkey hproto =>
      obtain ⟨proto, hheader⟩ := exists_header hproto
      refine ⟨_, .item (.external hkey hheader) (fun hends => ?_) hus⟩
      rw [endsInName_cons hheader.ne_nil] at hends
      exact absurd hends hheader.not_endsInName
  case expressionItem hitem _ _ ih =>
    obtain ⟨items, hus⟩ := ih (hrest hitem hn) rfl
    obtain ⟨vs, ws, e, items, he, hvs, hcall, hws⟩ := hus.extend ht hitem hn
    obtain ⟨token, rest, rfl, _⟩ := hvs.derives.expression_eq_cons
    rw [he]
    exact ⟨_, .item (.expression hvs) hcall hws⟩

end Phrase
end ExprLang
