import ExprLang.Precedence.Table

/-! The context-free grammar of programs over tokens. The operators are those of a table. -/
namespace ExprLang

namespace Token

def isName (t : Token) : Bool :=
  match t.kind with
  | .identifier _ => true
  | _ => false

def isNumber (t : Token) : Bool :=
  match t.kind with
  | .number _ => true
  | _ => false

theorem isName_iff {t : Token} : t.isName = true ↔ ∃ name, t.kind = .identifier name := by
  unfold isName
  split <;> simp_all

theorem isNumber_iff {t : Token} : t.isNumber = true ↔ ∃ value, t.kind = .number value := by
  unfold isNumber
  split <;> simp_all

theorem isSymbol_iff {t : Token} {c : Char} : t.isSymbol c = true ↔ t.kind = .symbol c := by
  simp [isSymbol]

theorem valueText_of_kind {t : Token} {name : String} (h : t.kind = .identifier name) :
    t.valueText = name := by
  rw [valueText, h]
  rfl

theorem ne_end_of_isName {t : Token} (h : t.isName = true) : t.kind ≠ .endOfInput := by
  obtain ⟨name, hk⟩ := isName_iff.mp h
  simp [hk]

theorem ne_end_of_isNumber {t : Token} (h : t.isNumber = true) : t.kind ≠ .endOfInput := by
  obtain ⟨value, hk⟩ := isNumber_iff.mp h
  simp [hk]

theorem ne_end_of_isSymbol {t : Token} {c : Char} (h : t.isSymbol c = true) :
    t.kind ≠ .endOfInput := by
  simp [isSymbol_iff.mp h]

end Token

namespace Table

def isOperator (t : Table) (token : Token) : Bool :=
  match token.kind with
  | .symbol c => (t.strength? c).isSome
  | _ => false

theorem isOperator_iff {t : Table} {token : Token} :
    t.isOperator token = true ↔ ∃ c n, token.kind = .symbol c ∧ t.strength? c = some n := by
  unfold isOperator
  split <;> simp_all [Option.isSome_iff_exists]

variable {t : Table}

theorem ne_end_of_isOperator {token : Token} (h : t.isOperator token = true) :
    token.kind ≠ .endOfInput := by
  obtain ⟨c, _, hc, _⟩ := isOperator_iff.mp h
  simp [hc]

theorem mem_of_strength? {c : Char} {n : Int} (h : t.strength? c = some n) :
    (c, n) ∈ t.entries := by
  obtain ⟨front, back, he, _⟩ := List.lookup_eq_some_iff.mp h
  simp [he]

/-- In a legal table the strength of a token tells whether it is an operator. -/
theorem Legal.zero_le_strength_iff (ht : t.Legal) {token : Token} :
    0 ≤ t.strength token ↔ t.isOperator token = true := by
  obtain ⟨kind, pos⟩ := token
  cases kind with
  | symbol c =>
    simp only [strength, isOperator]
    cases h : t.strength? c with
    | none => simp
    | some n => simpa using Int.le_of_lt (ht.positive _ (mem_of_strength? h))
  | _ => simp [strength, isOperator]

/-- No character with a meaning of its own is an operator of a legal table. -/
theorem Legal.isSymbol_eq_false (ht : t.Legal) {token : Token} (h : t.isOperator token = true)
    {c : Char} (hc : c ∈ reservedChars) : token.isSymbol c = false := by
  obtain ⟨d, n, hd, hn⟩ := isOperator_iff.mp h
  have hop := ht.operator _ (mem_of_strength? hn)
  apply Bool.eq_false_iff.mpr
  intro hs
  rw [Token.isSymbol_iff.mp hs, TokenKind.symbol.injEq] at hd
  subst hd
  simp [isOperatorChar, hc] at hop

theorem Legal.isOperator_eq_false (ht : t.Legal) {token : Token} {c : Char}
    (h : token.isSymbol c = true) (hc : c ∈ reservedChars) : t.isOperator token = false := by
  apply Bool.eq_false_iff.mpr
  intro ho
  simp [ht.isSymbol_eq_false ho hc] at h

end Table

/-- The phrases of the grammar. `links` are the operators of a chain with their operands. -/
inductive Nonterminal where
  | program
  | definition
  | external
  | prototype
  | expression
  | links
  | primary
  | arguments
  deriving DecidableEq, Repr

/-- The tokens that a phrase derives. The grammar is ambiguous: a name and an expression in brackets
behind it are two items of a program or one. -/
inductive Derives (t : Table) : Nonterminal → List Token → Prop
  | noItem : Derives t .program []
  | semicolon {semi : Token} {ts : List Token} (hsemi : semi.isSymbol ';' = true)
      (hrest : Derives t .program ts) : Derives t .program (semi :: ts)
  | definitionItem {ts us : List Token} (hitem : Derives t .definition ts)
      (hrest : Derives t .program us) : Derives t .program (ts ++ us)
  | externalItem {ts us : List Token} (hitem : Derives t .external ts)
      (hrest : Derives t .program us) : Derives t .program (ts ++ us)
  | expressionItem {ts us : List Token} (hitem : Derives t .expression ts)
      (hrest : Derives t .program us) : Derives t .program (ts ++ us)
  | definition {keyword : Token} {ts us : List Token} (hkey : keyword.kind = .defKeyword)
      (hproto : Derives t .prototype ts) (hbody : Derives t .expression us) :
      Derives t .definition (keyword :: (ts ++ us))
  | external {keyword : Token} {ts : List Token} (hkey : keyword.kind = .externKeyword)
      (hproto : Derives t .prototype ts) : Derives t .external (keyword :: ts)
  | prototype {name opening closing : Token} {params : List Token} (hname : name.isName = true)
      (hopen : opening.isSymbol '(' = true) (hparams : ∀ param ∈ params, param.isName = true)
      (hclose : closing.isSymbol ')' = true) :
      Derives t .prototype (name :: opening :: (params ++ [closing]))
  | expression {ts us : List Token} (hfirst : Derives t .primary ts) (hlinks : Derives t .links us) :
      Derives t .expression (ts ++ us)
  | noLink : Derives t .links []
  | link {operator : Token} {ts us : List Token} (hop : t.isOperator operator = true)
      (hright : Derives t .primary ts) (hlinks : Derives t .links us) :
      Derives t .links (operator :: (ts ++ us))
  | number {token : Token} (h : token.isNumber = true) : Derives t .primary [token]
  | name {token : Token} (h : token.isName = true) : Derives t .primary [token]
  | emptyCall {name opening closing : Token} (hname : name.isName = true)
      (hopen : opening.isSymbol '(' = true) (hclose : closing.isSymbol ')' = true) :
      Derives t .primary [name, opening, closing]
  | call {name opening closing : Token} {ts : List Token} (hname : name.isName = true)
      (hopen : opening.isSymbol '(' = true) (hargs : Derives t .arguments ts)
      (hclose : closing.isSymbol ')' = true) :
      Derives t .primary (name :: opening :: (ts ++ [closing]))
  | bracketed {opening closing : Token} {ts : List Token} (hopen : opening.isSymbol '(' = true)
      (hinner : Derives t .expression ts) (hclose : closing.isSymbol ')' = true) :
      Derives t .primary (opening :: (ts ++ [closing]))
  | lastArgument {ts : List Token} (harg : Derives t .expression ts) : Derives t .arguments ts
  | moreArguments {comma : Token} {ts us : List Token} (harg : Derives t .expression ts)
      (hcomma : comma.isSymbol ',' = true) (hrest : Derives t .arguments us) :
      Derives t .arguments (ts ++ comma :: us)

/-- The tokens end in a name. -/
def EndsInName (ts : List Token) : Prop := ∃ last ∈ ts.getLast?, last.isName = true

/-- The tokens begin with an opening bracket. -/
def BeginsWithBracket (ts : List Token) : Prop := ∃ next ∈ ts.head?, next.isSymbol '(' = true

section
variable {t : Table} {ts us : List Token} {token : Token}

@[simp] theorem not_endsInName_nil : ¬ EndsInName [] := by simp [EndsInName]

@[simp] theorem endsInName_concat : EndsInName (ts ++ [token]) ↔ token.isName = true := by
  simp [EndsInName]

@[simp] theorem endsInName_singleton : EndsInName [token] ↔ token.isName = true := by
  simp [EndsInName]

theorem endsInName_append (h : us ≠ []) : EndsInName (ts ++ us) ↔ EndsInName us := by
  simp [EndsInName, List.getLast?_append, List.getLast?_eq_some_getLast h]

theorem endsInName_cons (h : us ≠ []) : EndsInName (token :: us) ↔ EndsInName us := by
  rw [← List.singleton_append, endsInName_append h]

private theorem beginsWithBracket_append (h : ts ≠ []) :
    BeginsWithBracket (ts ++ us) ↔ BeginsWithBracket ts := by
  cases ts with
  | nil => exact absurd rfl h
  | cons token ts => simp [BeginsWithBracket]

theorem Token.isName_eq_false {c : Char} (h : token.isSymbol c = true) : token.isName = false := by
  simp [isName, isSymbol_iff.mp h]

theorem Derives.primary_ne_nil (h : Derives t .primary ts) : ts ≠ [] := by
  cases h <;> simp

theorem Derives.of_primary (h : Derives t .primary ts) : Derives t .expression ts := by
  simpa using Derives.expression h .noLink

/-- An expression is an operand and the links behind it. -/
theorem Derives.eq_chain (h : Derives t .expression ts) :
    ∃ first links, ts = first ++ links ∧ Derives t .primary first ∧ Derives t .links links := by
  cases h with
  | expression hfirst hlinks => exact ⟨_, _, rfl, hfirst, hlinks⟩

theorem Derives.expression_ne_nil (h : Derives t .expression ts) : ts ≠ [] := by
  obtain ⟨first, links, rfl, hfirst, _⟩ := h.eq_chain
  simp [hfirst.primary_ne_nil]

/-- An operand begins with a number, a name or an opening bracket. -/
theorem Derives.primary_eq_cons (h : Derives t .primary ts) : ∃ token rest, ts = token :: rest ∧
    (token.isNumber = true ∨ token.isName = true ∨ token.isSymbol '(' = true) := by
  cases h with
  | number h => exact ⟨_, _, rfl, .inl h⟩
  | name h => exact ⟨_, _, rfl, .inr (.inl h)⟩
  | emptyCall h => exact ⟨_, _, rfl, .inr (.inl h)⟩
  | call h => exact ⟨_, _, rfl, .inr (.inl h)⟩
  | bracketed hopen => exact ⟨_, _, rfl, .inr (.inr hopen)⟩

theorem Derives.expression_eq_cons (h : Derives t .expression ts) :
    ∃ token rest, ts = token :: rest ∧
      (token.isNumber = true ∨ token.isName = true ∨ token.isSymbol '(' = true) := by
  obtain ⟨first, links, rfl, hfirst, _⟩ := h.eq_chain
  obtain ⟨token, rest, rfl, htoken⟩ := hfirst.primary_eq_cons
  exact ⟨token, rest ++ links, rfl, htoken⟩

/-- An operand that ends in a name is that name. -/
theorem Derives.eq_name (h : Derives t .primary ts) (hends : EndsInName ts) :
    ∃ name : Token, ts = [name] ∧ name.isName = true := by
  cases h with
  | number h => exact ⟨_, rfl, endsInName_singleton.mp hends⟩
  | name h => exact ⟨_, rfl, h⟩
  | @emptyCall name opening closing _ _ hclose =>
    rw [show [name, opening, closing] = [name, opening] ++ [closing] from rfl,
      endsInName_concat] at hends
    simp [Token.isName_eq_false hclose] at hends
  | @call name opening closing ts _ _ _ hclose =>
    rw [endsInName_cons (by simp), endsInName_cons (by simp), endsInName_concat] at hends
    simp [Token.isName_eq_false hclose] at hends
  | @bracketed opening closing ts _ _ hclose =>
    rw [endsInName_cons (by simp), endsInName_concat] at hends
    simp [Token.isName_eq_false hclose] at hends

/-- An operand that begins with a bracket is an expression in brackets. -/
theorem Derives.eq_bracketed (h : Derives t .primary ts) (hbegins : BeginsWithBracket ts) :
    ∃ opening inner closing, ts = opening :: (inner ++ [closing]) ∧ opening.isSymbol '(' = true ∧
      Derives t .expression inner ∧ closing.isSymbol ')' = true := by
  have hname {token : Token} (h : token.isName = true) : ¬ token.isSymbol '(' = true := by
    intro hs
    simp [Token.isName_eq_false hs] at h
  obtain ⟨next, hnext, hb⟩ := hbegins
  cases h with
  | @number token h =>
    obtain rfl : token = next := by simpa using hnext
    simp [Token.isNumber, Token.isSymbol_iff.mp hb] at h
  | @name token h =>
    obtain rfl : token = next := by simpa using hnext
    exact absurd hb (hname h)
  | @emptyCall name _ _ h =>
    obtain rfl : name = next := by simpa using hnext
    exact absurd hb (hname h)
  | @call name _ _ _ h =>
    obtain rfl : name = next := by simpa using hnext
    exact absurd hb (hname h)
  | bracketed hopen hinner hclose => exact ⟨_, _, _, rfl, hopen, hinner, hclose⟩

private theorem Derives.name_cons {name : Token} (hname : name.isName = true)
    (hbracket : Derives t .expression us) (hbegins : BeginsWithBracket us) :
    Derives t .expression (name :: us) := by
  obtain ⟨first, links, rfl, hfirst, hlinks⟩ := hbracket.eq_chain
  rw [beginsWithBracket_append hfirst.primary_ne_nil] at hbegins
  obtain ⟨opening, inner, closing, rfl, hopen, hinner, hclose⟩ := hfirst.eq_bracketed hbegins
  have hcall : Derives t .primary (name :: opening :: (inner ++ [closing])) :=
    .call hname hopen (.lastArgument hinner) hclose
  simpa using Derives.expression hcall hlinks

private theorem Derives.links_append (h : Derives t .links ts) (hends : EndsInName ts)
    (hbracket : Derives t .expression us) (hbegins : BeginsWithBracket us) :
    Derives t .links (ts ++ us) := by
  generalize hk : Nonterminal.links = k at h
  induction h <;> cases hk
  case noLink => simp at hends
  case link operator right rest hop hright hrest _ ih =>
    by_cases hnil : rest = []
    · subst hnil
      rw [List.append_nil, endsInName_cons hright.primary_ne_nil] at hends
      obtain ⟨name, rfl, hname⟩ := hright.eq_name hends
      obtain ⟨first, links, he, hfirst, hlinks⟩ := (name_cons hname hbracket hbegins).eq_chain
      simpa [he] using Derives.link hop hfirst hlinks
    · rw [endsInName_cons (by simp [hnil]), endsInName_append hnil] at hends
      simpa using Derives.link hop hright (ih hends rfl)

/-- Two expressions of which the first ends in a name and the second begins with a bracket are one
expression as well. -/
theorem Derives.expression_append (h : Derives t .expression ts) (hends : EndsInName ts)
    (hbracket : Derives t .expression us) (hbegins : BeginsWithBracket us) :
    Derives t .expression (ts ++ us) := by
  obtain ⟨first, links, rfl, hfirst, hlinks⟩ := h.eq_chain
  by_cases hnil : links = []
  · subst hnil
    rw [List.append_nil] at hends
    obtain ⟨name, rfl, hname⟩ := hfirst.eq_name hends
    simpa using name_cons hname hbracket hbegins
  · rw [endsInName_append hnil] at hends
    rw [List.append_assoc]
    exact .expression hfirst (links_append hlinks hends hbracket hbegins)

end

end ExprLang
