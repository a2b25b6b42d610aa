import ExprLang.Proofs.Reading.Earliest

/-! Texts are refused at the first token at which no phrase goes on, and nothing of it or behind it
is taken. -/
namespace ExprLang

/-- The lookahead that a reader leaves behind, whether or not it fails. -/
def Reader.leaves {α : Type} (x : Reader α) (s : Lookahead) : Lookahead :=
  match x s with
  | .ok _ s' => s'
  | .error _ s' => s'

/-- Tokens are refused with an error that names the current token. Those before it begin a phrase,
but no phrase goes on with it; if it is the end of input, they are no phrase. What is behind it is
still ahead. -/
structure RefusedAt (t : Table) (k : Nonterminal) (ts before : List Token) (e : SyntaxError)
    (s : Lookahead) : Prop where
  error : ∃ missing, e = .unexpected missing s.current ∧
    e.message =
      missing.words ++ " at " ++ s.current.pos.inWords ++ " (got " ++ s.current.text ++ ")"
  viable : Viable t k before
  taken : s.taken = before.length + 1
  token : s.current.kind ≠ .endOfInput → ∃ rest, ts = before ++ s.current :: rest ∧
    s.ahead = rest.map .ok ∧ ¬ Viable t k (before ++ [s.current])
  finish : s.current.kind = .endOfInput → ts = before ∧ s.ahead = [] ∧ ¬ Derives t k ts

variable {t : Table} {levels : Nat} {text : String} {ts : List Token}

/-- Where no whole phrase goes on, tokens are refused. -/
theorem StopsAt.refusedAt {k : Nonterminal} {finish : Pos} {got : Token} {s : Lookahead}
    (hts : ∀ u ∈ ts, u.kind ≠ .endOfInput)
    (h : StopsAt (.whole t k) (.ofTokens finish 1 ts) got s) (missing : Missing) :
    ∃ before, RefusedAt t k ts before (.unexpected missing got) s := by
  obtain ⟨hpass, hrefuses⟩ := h
  rename_i before
  obtain ⟨rest, rfl, rfl⟩ := hpass.exists_ofTokens
  have htaken : (Lookahead.ofTokens finish (1 + before.length) rest).taken = before.length + 1 := by
    rw [Lookahead.ofTokens_taken, Nat.add_comm]
  refine ⟨before, ⟨missing, rfl, rfl⟩, hrefuses.viable, htaken, fun hne => ?_, fun hend => ?_⟩
  · cases rest with
    | nil => exact absurd rfl hne
    | cons r rest =>
      refine ⟨rest, rfl, rfl, fun ⟨vs, hword⟩ => ?_⟩
      rw [List.append_assoc] at hword
      exact hrefuses.not_word vs hword
  · cases rest with
    | nil =>
      rw [List.append_nil]
      exact ⟨rfl, rfl, hrefuses.not_word_of_follow rfl⟩
    | cons r rest => exact absurd hend (hts r (by simp))

theorem Progress.leaves_program (entries : Entries) (s : Lookahead) :
    (Reader.program entries levels).leaves s = (ofLookahead entries levels s).state := by
  rw [Reader.leaves, Reader.program]
  cases (ofLookahead entries levels s).error <;> rfl

/-- An expression that does not take up a whole text is not the beginning of a longer one. -/
theorem expression_stopsAt_trailing (ht : t.Legal) {s s' : Lookahead} {e : Expr}
    (h : Reader.expression (.ofTable t) levels s = .ok e s') (hend : s'.current.kind ≠ .endOfInput) :
    StopsAt (.whole t .expression) s s'.current s' := by
  obtain ⟨us, hpass, hus, hfollow⟩ := (Reader.expression_reads ht _ _ _ _).mp h
  have hviable : Derives t .expression (us ++ []) := by
    rw [List.append_nil]
    exact hus.derives
  refine .intro hpass ⟨⟨[], hviable⟩, fun ws zs zs' hws he => ?_⟩
  have hfits : (Language.expression t).Fits us (s'.current :: zs) := by
    refine ⟨hus.derives, fun next hnext => ?_⟩
    cases hnext
    exact hfollow
  have hfits' : (Language.expression t).Fits ws zs' :=
    ⟨hws.word, fun next hnext => .of_end (hws.follow next hnext)⟩
  obtain rfl := Language.expression_unambiguous ht hfits hfits' he
  obtain rfl := List.append_cancel_left he
  exact hend (hws.follow _ rfl)

/-- A text without a fault that is refused is refused as early as can be. -/
theorem parse_error_refusedAt (ht : t.Legal) (h : tokenize text = .ok ts)
    (hn : nesting ts < levels) : ∃ s, begin? text = .ok s ∧
      (∀ e, parse t levels text = .error e → ∃ before,
        RefusedAt t .program ts before e ((Reader.program (.ofTable t) levels).leaves s)) ∧
      ∀ e, parseExpression t levels text = .error e → ∃ before,
        RefusedAt t .expression ts before e ((Reader.expression (.ofTable t) levels).leaves s) := by
  obtain ⟨finish, hbegin⟩ := begin?_eq_ofTokens h
  have hts := kind_ne_end_of_tokenize h
  refine ⟨_, hbegin, fun e he => ?_, fun e he => ?_⟩
  · obtain ⟨missing, got, rfl⟩ := parse_error_unexpected ht h hn he
    rw [parse_of_begin hbegin, Progress.result] at he
    split at he
    · cases he
    · rename_i hstop
      cases he
      rw [Progress.leaves_program]
      exact (Progress.within_stopsAt ht _ hstop).refusedAt hts missing
  · obtain ⟨missing, got, rfl⟩ := parseExpression_error_unexpected ht h hn he
    rw [parseExpression_of_begin hbegin] at he
    rw [Reader.leaves]
    cases hread : Reader.expression (.ofTable t) levels (.ofTokens finish 1 ts) with
    | error e' s' =>
      rw [hread] at he
      cases he
      have hstops : StopsAt (.whole t .expression) _ got s' :=
        (Reader.expression_early ht levels hread).imp (fun _ hws => hws)
          fun _ _ _ _ hws => ⟨hws.word, fun next hnext => .of_end (hws.follow next hnext)⟩
      exact hstops.refusedAt hts missing
    | ok tree s' =>
      simp only [hread] at he
      split at he
      · cases he
      · rename_i hend
        cases he
        exact (expression_stopsAt_trailing ht hread hend).refusedAt hts _

/-- A second argument without a comma in front is refused where it begins. -/
theorem parse_error_refusedAt_argument : ∃ s ts before before' e e',
    tokenize "f(x y)" = .ok ts ∧ begin? "f(x y)" = .ok s ∧ parse .standard 2 "f(x y)" = .error e ∧
      parseExpression .standard 2 "f(x y)" = .error e' ∧
      RefusedAt .standard .program ts before e ((Reader.program (.ofTable .standard) 2).leaves s) ∧
      RefusedAt .standard .expression ts before' e'
        ((Reader.expression (.ofTable .standard) 2).leaves s) := by
  have htokens : tokenize "f(x y)" = .ok [⟨.identifier "f", ⟨1, 1⟩⟩, ⟨.symbol '(', ⟨1, 2⟩⟩,
      ⟨.identifier "x", ⟨1, 3⟩⟩, ⟨.identifier "y", ⟨1, 5⟩⟩, ⟨.symbol ')', ⟨1, 6⟩⟩] := by cbv
  have hnesting : nesting [⟨.identifier "f", ⟨1, 1⟩⟩, ⟨.symbol '(', ⟨1, 2⟩⟩,
      ⟨.identifier "x", ⟨1, 3⟩⟩, ⟨.identifier "y", ⟨1, 5⟩⟩, ⟨.symbol ')', ⟨1, 6⟩⟩] < 2 := by decide
  obtain ⟨s, hbegin, hprogram, hexpression⟩ :=
    parse_error_refusedAt Table.standard_legal htokens hnesting
  obtain ⟨finish, hbegin'⟩ := begin?_eq_ofTokens htokens
  have herror : parse .standard 2 "f(x y)" =
      .error (.unexpected .argumentEnd ⟨.identifier "y", ⟨1, 5⟩⟩) := by
    rw [parse_of_begin hbegin']
    rfl
  have herror' : parseExpression .standard 2 "f(x y)" =
      .error (.unexpected .argumentEnd ⟨.identifier "y", ⟨1, 5⟩⟩) := by
    rw [parseExpression_of_begin hbegin']
    rfl
  obtain ⟨before, hbefore⟩ := hprogram _ herror
  obtain ⟨before', hbefore'⟩ := hexpression _ herror'
  exact ⟨s, _, before, before', _, _, htokens, hbegin, herror, herror', hbefore, hbefore'⟩

end ExprLang
