import ExprLang.Proofs.Reading.Begin
import ExprLang.Proofs.Reading.Failure

/-! Texts are accepted exactly if the grammar derives their tokens. -/
namespace ExprLang

variable {t : Table} {levels : Nat} {text : String} {ts : List Token}

theorem Progress.result_eq_ok_iff {p : Progress} {items : List Item} :
    p.result = .ok items ↔ p = ⟨items, none, p.state⟩ := by
  obtain ⟨found, error, state⟩ := p
  cases error <;> simp [Progress.result]

/-- More items in front change nothing but the items. -/
theorem Progress.result_append (items : List Item) (p : Progress) :
    ({ p with items := items ++ p.items } : Progress).result = p.result.map (items ++ ·) := by
  obtain ⟨found, error, state⟩ := p
  cases error <;> rfl

theorem parse_of_begin {s : Lookahead} (h : begin? text = .ok s) :
    parse t levels text = (Progress.ofLookahead (.ofTable t) levels s).result := by
  rw [parse, h]
  rfl

theorem parse_of_begin_error {e : SyntaxError} (h : begin? text = .error e) :
    parse t levels text = .error e := by
  rw [parse, h]
  rfl

/-- The items that were read from a text up to the first error. -/
def collected (t : Table) (levels : Nat) (text : String) : List Item :=
  match begin? text with
  | .error _ => []
  | .ok s => (Progress.ofLookahead (.ofTable t) levels s).items

/-- The error that ends the reading of a text. -/
def ending (t : Table) (levels : Nat) (text : String) : Option SyntaxError :=
  match begin? text with
  | .error e => some e
  | .ok s => (Progress.ofLookahead (.ofTable t) levels s).error

theorem collected_of_begin {s : Lookahead} (h : begin? text = .ok s) :
    collected t levels text = (Progress.ofLookahead (.ofTable t) levels s).items := by
  rw [collected, h]

theorem collected_of_begin_error {e : SyntaxError} (h : begin? text = .error e) :
    collected t levels text = [] := by
  rw [collected, h]

theorem ending_of_begin {s : Lookahead} (h : begin? text = .ok s) :
    ending t levels text = (Progress.ofLookahead (.ofTable t) levels s).error := by
  rw [ending, h]

theorem ending_of_begin_error {e : SyntaxError} (h : begin? text = .error e) :
    ending t levels text = some e := by
  rw [ending, h]

theorem parse_eq_ok_collected {items : List Item} (h : parse t levels text = .ok items) :
    items = collected t levels text := by
  cases hbegin : begin? text with
  | error e =>
    rw [parse_of_begin_error hbegin] at h
    cases h
  | ok s =>
    rw [parse_of_begin hbegin, Progress.result_eq_ok_iff] at h
    exact (congrArg Progress.items h).symm.trans (collected_of_begin hbegin).symm

theorem parse_eq_error_iff {e : SyntaxError} :
    parse t levels text = .error e ↔ ending t levels text = some e := by
  cases hbegin : begin? text with
  | error e' => simp [parse_of_begin_error hbegin, ending_of_begin_error hbegin]
  | ok s =>
    rw [parse_of_begin hbegin, ending_of_begin hbegin, Progress.result]
    cases (Progress.ofLookahead (.ofTable t) levels s).error <;> simp

theorem begin?_error_lexical {e : SyntaxError} (h : begin? text = .error e) :
    ∃ fault, e = .lexical fault := by
  rw [begin?] at h
  cases hfound : Lookahead.ofText text with
  | ok s =>
    rw [hfound] at h
    cases h
  | error fault =>
    rw [hfound] at h
    cases h
    exact ⟨fault, rfl⟩

/-- Nothing but errors of syntax come of a text. -/
theorem parse_error_declared (ht : t.Legal) {e : SyntaxError} (h : parse t levels text = .error e) :
    e.Declared := by
  cases hbegin : begin? text with
  | error e' =>
    obtain ⟨fault, rfl⟩ := begin?_error_lexical hbegin
    rw [parse_of_begin_error hbegin] at h
    cases h
    exact .lexical fault
  | ok s =>
    rw [parse_of_begin hbegin, Progress.result] at h
    cases herror : (Progress.ofLookahead (.ofTable t) levels s).error with
    | none =>
      rw [herror] at h
      cases h
    | some found =>
      rw [herror] at h
      cases h
      exact (Progress.within_stops ht _ herror).declared

/-- A program is read from a text if it is all that is found there. -/
theorem parse_of_begin_eq_ok_iff (ht : t.Legal) {s : Lookahead} (h : begin? text = .ok s)
    {items : List Item} :
    parse t levels text = .ok items ↔ ∃ s', Progress.Finishes t levels s items s' := by
  have hwithin (s' : Lookahead) : Progress.ofLookahead (.ofTable t) levels s = ⟨items, none, s'⟩ ↔
      Progress.Finishes t levels s items s' := Progress.within_eq_iff ht _ fun _ => Nat.lt_succ_self _
  rw [parse_of_begin h, Progress.result_eq_ok_iff]
  constructor
  · exact fun he => ⟨_, (hwithin _).mp he⟩
  · rintro ⟨s', hs'⟩
    rw [(hwithin s').mpr hs']

/-- What is read from a text is what its tokens stand for. -/
theorem exists_program_of_parse (ht : t.Legal) {items : List Item}
    (h : parse t levels text = .ok items) :
    ∃ ts, tokenize text = .ok ts ∧ Phrase.Program t levels ts items ∧
      ∀ token ∈ ts, token.kind.Lexable := by
  cases hbegin : begin? text with
  | error e =>
    rw [parse_of_begin_error hbegin] at h
    cases h
  | ok s =>
    obtain ⟨s', ts, hpass, hend, hts⟩ := (parse_of_begin_eq_ok_iff ht hbegin).mp h
    exact ⟨ts, tokenize_of_passes hbegin hpass hend, hts, (sound_of_begin? hbegin).passes hpass⟩

/-- If a text has no fault, its items are those that its tokens stand for. -/
theorem parse_eq_ok_iff (ht : t.Legal) (h : tokenize text = .ok ts) {items : List Item} :
    parse t levels text = .ok items ↔ Phrase.Program t levels ts items := by
  obtain ⟨s, s', hbegin, hpass, hend, _⟩ := begin?_of_tokenize h
  rw [parse_of_begin_eq_ok_iff ht hbegin]
  constructor
  · rintro ⟨s'', us, hpass', hend', hus⟩
    rwa [(hpass.unique hend hpass' hend').1]
  · exact fun hts => ⟨s', ts, hpass, hend, hts⟩

theorem parseExpression_of_begin {s : Lookahead} (h : begin? text = .ok s) :
    parseExpression t levels text = match Reader.expression (.ofTable t) levels s with
      | .error e _ => .error e
      | .ok e s => if s.current.kind = .endOfInput then .ok e
        else .error (.unexpected .endOfInput s.current) := by
  rw [parseExpression, h]
  rfl

theorem parseExpression_of_begin_error {e : SyntaxError} (h : begin? text = .error e) :
    parseExpression t levels text = .error e := by
  rw [parseExpression, h]
  rfl

/-- If a text has no fault, its tree is that which its tokens stand for. -/
theorem parseExpression_eq_ok_iff (ht : t.Legal) (h : tokenize text = .ok ts) {e : Expr} :
    parseExpression t levels text = .ok e ↔ Phrase.Expression t levels ts e := by
  obtain ⟨s, s', hbegin, hpass, hend, _⟩ := begin?_of_tokenize h
  rw [parseExpression_of_begin hbegin]
  constructor
  · intro h
    cases hread : Reader.expression (.ofTable t) levels s with
    | error _ _ => simp [hread] at h
    | ok e' s'' =>
      obtain ⟨us, hpass', hus, _⟩ := (Reader.expression_reads ht _ _ _ _).mp hread
      simp only [hread] at h
      split at h
      · rename_i hend'
        cases h
        rwa [(hpass.unique hend hpass' hend').1]
      · cases h
  · intro hts
    simp only [(Reader.expression_reads ht _ _ _ _).mpr ⟨ts, hpass, hts, .of_end hend⟩, hend, if_true]

/-- Where there is no fault and not too many brackets, only an unexpected token stops the
reading. -/
theorem unexpected_of_stops {s s1 s' : Lookahead} {e : SyntaxError}
    (hstops : Stops levels s e s1) (hpass : Passes s ts s')
    (hend : s'.current.kind = .endOfInput) (hahead : ∀ found ∈ s.ahead, ∃ t, found = .ok t)
    (hn : nesting ts < levels) : ∃ missing got, e = .unexpected missing got := by
  obtain ⟨us, hpass', ⟨_, hdeep⟩ | ⟨missing, rfl⟩⟩ := hstops.passes_of_tokens hahead
  · obtain ⟨vs, rfl⟩ := hpass.prefix_of_end hend hpass'
    have := balance_le_nesting us vs
    omega
  · exact ⟨missing, _, rfl⟩

theorem parse_error_unexpected (ht : t.Legal) (h : tokenize text = .ok ts)
    (hn : nesting ts < levels) {e : SyntaxError} (he : parse t levels text = .error e) :
    ∃ missing got, e = .unexpected missing got := by
  obtain ⟨s, s', hbegin, hpass, hend, hahead⟩ := begin?_of_tokenize h
  rw [parse_of_begin hbegin, Progress.result] at he
  split at he
  · cases he
  · rename_i hstop
    cases he
    exact unexpected_of_stops (Progress.within_stops ht _ hstop) hpass hend hahead hn

theorem parseExpression_error_unexpected (ht : t.Legal) (h : tokenize text = .ok ts)
    (hn : nesting ts < levels) {e : SyntaxError}
    (he : parseExpression t levels text = .error e) : ∃ missing got, e = .unexpected missing got := by
  obtain ⟨s, s', hbegin, hpass, hend, hahead⟩ := begin?_of_tokenize h
  rw [parseExpression_of_begin hbegin] at he
  cases hread : Reader.expression (.ofTable t) levels s with
  | error e' s'' =>
    simp only [hread] at he
    cases he
    exact unexpected_of_stops (Reader.expression_fails ht _ _ _ _ hread) hpass hend hahead hn
  | ok _ s'' =>
    simp only [hread] at he
    split at he
    · cases he
    · cases he
      exact ⟨_, _, rfl⟩

/-- What grammar derives the tokens of a text is what decides on it. A text that it does not derive
is refused at one of its tokens. -/
theorem accepts_iff_derives (ht : t.Legal) (h : tokenize text = .ok ts)
    (hn : nesting ts < levels) :
    ((∃ items, parse t levels text = .ok items) ↔ Derives t .program ts) ∧
      (¬ Derives t .program ts →
        ∃ missing got, parse t levels text = .error (.unexpected missing got)) ∧
      ((∃ e, parseExpression t levels text = .ok e) ↔ Derives t .expression ts) ∧
      (¬ Derives t .expression ts →
        ∃ missing got, parseExpression t levels text = .error (.unexpected missing got)) := by
  have hprogram : (∃ items, parse t levels text = .ok items) ↔ Derives t .program ts := by
    simp only [parse_eq_ok_iff ht h]
    exact ⟨fun ⟨_, hts⟩ => hts.derives, fun hts => Phrase.exists_program ht hts hn⟩
  have hexpression : (∃ e, parseExpression t levels text = .ok e) ↔ Derives t .expression ts := by
    simp only [parseExpression_eq_ok_iff ht h]
    exact ⟨fun ⟨_, hts⟩ => hts.derives, fun hts => Phrase.exists_expression ht hts hn⟩
  refine ⟨hprogram, fun hnot => ?_, hexpression, fun hnot => ?_⟩
  · cases hresult : parse t levels text with
    | ok items => exact absurd (hprogram.mp ⟨items, hresult⟩) hnot
    | error e =>
      obtain ⟨missing, got, rfl⟩ := parse_error_unexpected ht h hn hresult
      exact ⟨missing, got, rfl⟩
  · cases hresult : parseExpression t levels text with
    | ok e => exact absurd (hexpression.mp ⟨e, hresult⟩) hnot
    | error e =>
      obtain ⟨missing, got, rfl⟩ := parseExpression_error_unexpected ht h hn hresult
      exact ⟨missing, got, rfl⟩

/-- The grammar has two items here, and the reader a call. -/
theorem accepts_name_and_brackets : (∃ items, parse .standard 2 "f (x)" = .ok items) ∧
    ∃ e, parseExpression .standard 2 "f (x)" = .ok e := by
  let name : Token := ⟨.identifier "f", ⟨1, 1⟩⟩
  let opening : Token := ⟨.symbol '(', ⟨1, 3⟩⟩
  let inner : Token := ⟨.identifier "x", ⟨1, 4⟩⟩
  let closing : Token := ⟨.symbol ')', ⟨1, 5⟩⟩
  have htokens : tokenize "f (x)" = .ok [name, opening, inner, closing] := by cbv
  have hnesting : nesting [name, opening, inner, closing] < 2 := by decide
  obtain ⟨hprogram, _, hexpression, _⟩ :=
    accepts_iff_derives Table.standard_legal htokens hnesting
  have hname : Derives .standard .expression [name] := .of_primary (.name rfl)
  have hinner : Derives .standard .expression [inner] := .of_primary (.name rfl)
  have hbrackets : Derives .standard .primary (opening :: ([inner] ++ [closing])) :=
    .bracketed rfl hinner rfl
  have hcall : Derives .standard .primary (name :: opening :: ([inner] ++ [closing])) :=
    .call rfl rfl (.lastArgument hinner) rfl
  have hitems : Derives .standard .program ([name] ++ (opening :: ([inner] ++ [closing]) ++ [])) :=
    .expressionItem hname (.expressionItem (.of_primary hbrackets) .noItem)
  exact ⟨hprogram.mpr hitems, hexpression.mpr (.of_primary hcall)⟩

end ExprLang
