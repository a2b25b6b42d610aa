import ExprLang.Proofs.Grammar.Derivation

/-! How deep the brackets of tokens nest. Every phrase of the grammar closes the brackets that it
opens. -/
namespace ExprLang

/-- What a token adds to the brackets that are open. -/
def bracketWeight (t : Token) : Int :=
  if t.isSymbol '(' then 1 else if t.isSymbol ')' then -1 else 0

/-- How many brackets are opened more than closed. -/
def balance : List Token → Int
  | [] => 0
  | t :: ts => bracketWeight t + balance ts

/-- How many brackets are open at once where they are most. -/
def nesting : List Token → Nat
  | [] => 0
  | t :: ts =>
    if t.isSymbol '(' then nesting ts + 1
    else if t.isSymbol ')' then nesting ts - 1
    else nesting ts

variable {opening closing token : Token} {ts us : List Token}

theorem bracketWeight_opening (h : opening.isSymbol '(' = true) : bracketWeight opening = 1 := by
  simp [bracketWeight, h]

theorem bracketWeight_closing (h : closing.isSymbol ')' = true) : bracketWeight closing = -1 := by
  simp [bracketWeight, Token.isSymbol, Token.isSymbol_iff.mp h]

theorem bracketWeight_of_isName (h : token.isName = true) : bracketWeight token = 0 := by
  obtain ⟨name, hname⟩ := Token.isName_iff.mp h
  simp [bracketWeight, Token.isSymbol, hname]

theorem bracketWeight_of_isNumber (h : token.isNumber = true) : bracketWeight token = 0 := by
  obtain ⟨value, hvalue⟩ := Token.isNumber_iff.mp h
  simp [bracketWeight, Token.isSymbol, hvalue]

theorem bracketWeight_of_isSymbol {c : Char} (h : token.isSymbol c = true)
    (hc : c ≠ '(' ∧ c ≠ ')') : bracketWeight token = 0 := by
  simp [bracketWeight, Token.isSymbol, Token.isSymbol_iff.mp h, hc]

theorem Table.Legal.bracketWeight_eq_zero {t : Table} (ht : t.Legal)
    (h : t.isOperator token = true) : bracketWeight token = 0 := by
  simp [bracketWeight, ht.isSymbol_eq_false h (c := '(') (by decide),
    ht.isSymbol_eq_false h (c := ')') (by decide)]

theorem balance_append (ts us : List Token) : balance (ts ++ us) = balance ts + balance us := by
  induction ts with
  | nil => simp [balance]
  | cons t ts ih => simp only [List.cons_append, balance, ih, Int.add_assoc]

theorem balance_names (h : ∀ t ∈ ts, t.isName = true) : balance ts = 0 := by
  induction ts with
  | nil => rfl
  | cons t ts ih =>
    rw [balance, bracketWeight_of_isName (h t (by simp)), ih fun u hu => h u (by simp [hu])]
    rfl

theorem nesting_le_length (ts : List Token) : nesting ts ≤ ts.length := by
  induction ts with
  | nil => exact Nat.le_refl _
  | cons t ts ih =>
    simp only [nesting, List.length_cons]
    split
    · omega
    · split <;> omega

theorem nesting_append_left (ts us : List Token) : nesting ts ≤ nesting (ts ++ us) := by
  induction ts with
  | nil => exact Nat.zero_le _
  | cons t ts ih =>
    simp only [List.cons_append, nesting]
    split
    · omega
    · split <;> omega

/-- What stands behind some tokens nests on top of the brackets that these leave open. -/
theorem balance_add_nesting_le (ts us : List Token) :
    balance ts + nesting us ≤ nesting (ts ++ us) := by
  induction ts with
  | nil => simp [balance]
  | cons t ts ih =>
    simp only [List.cons_append, balance, nesting, bracketWeight]
    split
    · omega
    · split <;> omega

theorem balance_le_nesting (ts us : List Token) : balance ts ≤ nesting (ts ++ us) := by
  have := balance_add_nesting_le ts us
  omega

theorem nesting_append_right (h : balance ts = 0) (us : List Token) :
    nesting us ≤ nesting (ts ++ us) := by
  have := balance_add_nesting_le ts us
  omega

/-- A pair of brackets nests one level deeper than what is inside. -/
theorem nesting_brackets (hopen : opening.isSymbol '(' = true) (ts us : List Token) :
    nesting ts < nesting (opening :: (ts ++ us)) := by
  simp only [nesting, hopen, if_true]
  have := nesting_append_left ts us
  omega

/-- Every phrase closes the brackets that it opens. -/
theorem Derives.balance_eq_zero {t : Table} (ht : t.Legal) {k : Nonterminal}
    (h : Derives t k ts) : balance ts = 0 := by
  induction h with
  | noItem => rfl
  | semicolon hsemi _ ih => simp [balance, bracketWeight_of_isSymbol hsemi, ih]
  | definitionItem _ _ ihi ihr => simp [balance_append, ihi, ihr]
  | externalItem _ _ ihi ihr => simp [balance_append, ihi, ihr]
  | expressionItem _ _ ihi ihr => simp [balance_append, ihi, ihr]
  | definition hkey _ _ ihp ihb =>
    simp [balance, bracketWeight, Token.isSymbol, hkey, balance_append, ihp, ihb]
  | external hkey _ ih => simp [balance, bracketWeight, Token.isSymbol, hkey, ih]
  | prototype hname hopen hparams hclose =>
    simp [balance, balance_append, bracketWeight_of_isName hname, bracketWeight_opening hopen,
      balance_names hparams, bracketWeight_closing hclose]
  | expression _ _ ihf ihl => simp [balance_append, ihf, ihl]
  | noLink => rfl
  | link hop _ _ ihr ihl => simp [balance, balance_append, ht.bracketWeight_eq_zero hop, ihr, ihl]
  | number h => simp [balance, bracketWeight_of_isNumber h]
  | name h => simp [balance, bracketWeight_of_isName h]
  | emptyCall hname hopen hclose =>
    simp [balance, bracketWeight_of_isName hname, bracketWeight_opening hopen,
      bracketWeight_closing hclose]
  | call hname hopen _ hclose ih =>
    simp [balance, balance_append, bracketWeight_of_isName hname, bracketWeight_opening hopen, ih,
      bracketWeight_closing hclose]
  | bracketed hopen _ hclose ih =>
    simp [balance, balance_append, bracketWeight_opening hopen, ih, bracketWeight_closing hclose]
  | lastArgument _ ih => exact ih
  | moreArguments _ hcomma _ iha ihr =>
    simp [balance, balance_append, iha, bracketWeight_of_isSymbol hcomma, ihr]

end ExprLang
