import ExprLang.Proofs.Reading.Program

/-! How reading goes wrong. No token is passed over without need, and each kind of error has its own
cause. -/
namespace ExprLang

/-- Reading stops at a token that cannot be used, in front of a fault of the text, or inside of too
many brackets. -/
inductive Stops (levels : Int) (s : Lookahead) : SyntaxError → Lookahead → Prop
  | unexpected {ts : List Token} {s' : Lookahead} (missing : Missing) (hpass : Passes s ts s') :
      Stops levels s (.unexpected missing s'.current) s'
  | fault {ts : List Token} {s1 s' : Lookahead} {e : SyntaxError} (hpass : Passes s ts s1)
      (hend : s1.current.kind ≠ .endOfInput) (hadvance : Reader.advance s1 = .error e s') :
      Stops levels s e s'
  | tooDeep {ts : List Token} {s' : Lookahead} (hpass : Passes s ts s') (hdeep : levels ≤ balance ts) :
      Stops levels s (.tooDeep s'.current) s'

/-- The errors of syntax that callers are told of: a fault of the text, a token that cannot be used,
and brackets that nest too deep. -/
inductive SyntaxError.Declared : SyntaxError → Prop
  | lexical (fault : LexError) : Declared (.lexical fault)
  | unexpected (missing : Missing) (got : Token) : Declared (.unexpected missing got)
  | tooDeep (got : Token) : Declared (.tooDeep got)

theorem SyntaxError.Declared.exists_place {e : SyntaxError} (h : e.Declared) :
    ∃ p, e.place? = some p := by
  cases h <;> exact ⟨_, rfl⟩

namespace Stops
variable {levels levels' : Int} {s s1 s' : Lookahead} {e : SyntaxError} {ts : List Token}

theorem declared (h : Stops levels s e s') : e.Declared := by
  cases h with
  | unexpected missing _ => exact .unexpected missing _
  | tooDeep _ _ => exact .tooDeep _
  | fault _ _ hadvance =>
    obtain ⟨fault, _, _, rfl, _⟩ := Reader.advance_eq_error_iff.mp hadvance
    exact .lexical fault

/-- Where only tokens are ahead, no fault stops the reading. -/
theorem passes_of_tokens (h : Stops levels s e s')
    (hahead : ∀ found ∈ s.ahead, ∃ t, found = .ok t) :
    ∃ us, Passes s us s' ∧
      (e = .tooDeep s'.current ∧ levels ≤ balance us ∨
        ∃ missing, e = .unexpected missing s'.current) := by
  cases h with
  | unexpected missing hpass => exact ⟨_, hpass, .inr ⟨missing, rfl⟩⟩
  | tooDeep hpass hdeep => exact ⟨_, hpass, .inl ⟨rfl, hdeep⟩⟩
  | fault hpass _ hadvance =>
    obtain ⟨fault, rest, hfault, _⟩ := Reader.advance_eq_error_iff.mp hadvance
    have hmem := hpass.suffix_ahead.subset (hfault ▸ List.mem_cons_self)
    obtain ⟨token, htoken⟩ := hahead _ hmem
    cases htoken

private theorem after (h : Stops levels' s1 e s') (hpass : Passes s ts s1)
    (hlevels : levels ≤ levels' + balance ts) : Stops levels s e s' := by
  cases h with
  | unexpected missing hpass' => exact .unexpected missing (hpass.append hpass')
  | fault hpass' hend hadvance => exact .fault (hpass.append hpass') hend hadvance
  | tooDeep hpass' hdeep =>
    refine .tooDeep (hpass.append hpass') ?_
    rw [balance_append]
    omega

private theorem step (h : Stops levels' s1 e s') (hend : s.current.kind ≠ .endOfInput)
    (hadvance : Reader.advance s = .ok () s1) (hlevels : levels ≤ levels' + bracketWeight s.current) :
    Stops levels s e s' :=
  h.after (.one hend hadvance) (by simpa [balance] using hlevels)

end Stops

namespace Reader
variable {α β : Type} {t : Table} {levels : Int} {s s' : Lookahead} {e : SyntaxError}

/-- Whenever a reader fails, it stops as it should. -/
def Fails (levels : Int) (x : Reader α) : Prop := ∀ s e s', x s = .error e s' → Stops levels s e s'

private theorem advance_bind_stops (levels' : Int) {f : Unit → Reader β}
    (hend : s.current.kind ≠ .endOfInput) (hlevels : levels ≤ levels' + bracketWeight s.current)
    (hf : ∀ s1, advance s = .ok () s1 → f () s1 = .error e s' → Stops levels' s1 e s')
    (h : (advance >>= f) s = .error e s') : Stops levels s e s' := by
  rcases bind_eq_error_iff.mp h with h | ⟨_, s1, h1, h⟩
  · exact .fault (.refl s) hend h
  · exact (hf s1 h1 h).step hend h1 hlevels

private theorem fail_stops {missing : Missing} (h : (fail missing : Reader α) s = .error e s') :
    Stops levels s e s' := by
  cases h
  exact .unexpected missing (.refl s)

private theorem expect_bind_stops (levels' : Int) {type : String} {c : Char}
    (htype : type = String.singleton c) {missing : Missing} {f : Token → Reader β}
    (hlevels : s.current.isSymbol c = true → levels ≤ levels' + bracketWeight s.current)
    (hf : ∀ token s1, f token s1 = .error e s' → Stops levels' s1 e s')
    (h : (expect type missing >>= f) s = .error e s') : Stops levels s e s' := by
  rw [expect_bind htype] at h
  split at h
  · rename_i hc
    exact advance_bind_stops levels' (by simp [Token.isSymbol_iff.mp hc]) (hlevels hc)
      (fun s1 _ h => hf _ s1 h) h
  · exact fail_stops h

section
variable {inner : Reader Expr} {P : Phrase Expr}

private theorem Reads.bind_stops {x : Reader α} {f : α → Reader β} {phrase : Phrase α}
    {follow : List Token → Token → Prop} (hx : Reads x phrase follow) (hfails : Fails levels x)
    (hzero : ∀ ts a, phrase ts a → balance ts = 0)
    (hf : ∀ a s1, f a s1 = .error e s' → Stops levels s1 e s') (h : (x >>= f) s = .error e s') :
    Stops levels s e s' := by
  rcases bind_eq_error_iff.mp h with h | ⟨a, s1, ha, h⟩
  · exact hfails _ _ _ h
  · obtain ⟨ts, hpass, hts, _⟩ := (hx _ _ _).mp ha
    exact (hf a s1 h).after hpass (by simp [hzero _ _ hts])

private theorem arguments_fails (ht : t.Legal) (hinner : Reads inner P (Follows t))
    (hP : ∀ ts e, P ts e → Derives t .expression ts) (hfails : Fails levels inner) (count : Nat) :
    Fails levels (arguments inner count) := by
  induction count with
  | zero =>
    intro s e s' h
    cases h
  | succ count ih =>
    intro s e s' h
    rw [arguments] at h
    refine hinner.bind_stops hfails (fun _ _ h => (hP _ _ h).balance_eq_zero ht) ?_ h
    intro arg s1 h
    rw [current_bind] at h
    split at h
    · rename_i hclose
      refine advance_bind_stops (levels + 1) (Token.ne_end_of_isSymbol hclose)
        (by rw [bracketWeight_closing hclose]; omega) (fun _ _ h => ?_) h
      cases h
    split at h
    · rename_i hcomma
      refine advance_bind_stops levels (Token.ne_end_of_isSymbol hcomma)
        (by rw [bracketWeight_of_isSymbol hcomma (by decide)]; omega) (fun s2 _ h => ?_) h
      exact ih _ _ _ (bind_pure_eq_error_iff.mp h)
    · exact fail_stops h

private theorem nameOrCall_fails (ht : t.Legal) (hinner : Reads inner P (Follows t))
    (hP : ∀ ts e, P ts e → Derives t .expression ts) (hfails : Fails levels inner)
    (hname : s.current.isName = true) (h : nameOrCall inner s = .error e s') :
    Stops (levels + 1) s e s' := by
  have hend := Token.ne_end_of_isName hname
  rw [nameOrCall, current_bind] at h
  refine advance_bind_stops (levels + 1) hend (by rw [bracketWeight_of_isName hname]; omega)
    (fun s1 _ h => ?_) h
  rw [current_bind] at h
  split at h
  · rename_i hopen
    refine advance_bind_stops levels (Token.ne_end_of_isSymbol hopen)
      (Int.le_of_eq (by rw [bracketWeight_opening hopen])) (fun s2 _ h => ?_) h
    rw [current_bind] at h
    split at h
    · rename_i hclose
      refine advance_bind_stops (levels + 1) (Token.ne_end_of_isSymbol hclose)
        (by rw [bracketWeight_closing hclose]; omega) (fun _ _ h => ?_) h
      cases h
    · rw [left_bind] at h
      exact arguments_fails ht hinner hP hfails _ _ _ _ (bind_pure_eq_error_iff.mp h)
  · cases h

private theorem operandOver_fails (ht : t.Legal) (hinner : Reads inner P (Follows t))
    (hP : ∀ ts e, P ts e → Derives t .expression ts) (hfails : Fails levels inner) :
    Fails (levels + 1) (operandOver inner) := by
  intro s e s' h
  rw [operandOver_eq] at h
  split at h
  · rename_i hname
    exact nameOrCall_fails ht hinner hP hfails hname h
  split at h
  · rename_i hnumber
    obtain ⟨value, hk⟩ := Token.isNumber_iff.mp hnumber
    rw [number, current_bind] at h
    simp only [hk] at h
    refine advance_bind_stops (levels + 1) (by simp [hk])
      (by rw [bracketWeight_of_isNumber hnumber]; omega) (fun _ _ h => ?_) h
    cases h
  split at h
  · rename_i hopen
    rw [bracketed] at h
    refine advance_bind_stops levels (Token.ne_end_of_isSymbol hopen)
      (Int.le_of_eq (by rw [bracketWeight_opening hopen])) (fun s1 _ h => ?_) h
    refine hinner.bind_stops hfails (fun _ _ h => (hP _ _ h).balance_eq_zero ht) ?_ h
    intro _ s2 h
    refine expect_bind_stops (levels + 1) closing_eq_singleton
      (fun hclose => by rw [bracketWeight_closing hclose]; omega) (fun _ _ h => ?_) h
    cases h
  · cases h
    exact .unexpected .expression (.refl s)

end

section
variable {operand : Reader Expr} {Q : Phrase Expr}

private theorem links_fails (ht : t.Legal) {least : Int} (hleast : 0 ≤ least)
    (hoperand : Reads operand Q Uncalled) (hQ : ∀ ts e, Q ts e → Derives t .primary ts)
    (hfails : Fails levels operand) (before : Option Value)
    (hbefore : ∀ v ∈ before, ∃ n, v = .integer n) (count : Nat) :
    Fails levels (links (.ofTable t) operand (.integer least) before count) := by
  induction count generalizing before with
  | zero =>
    intro s e s' h
    cases h
  | succ count ih =>
    intro s e s' h
    rw [links_succ before hbefore] at h
    split at h
    · cases h
    · have hop : t.isOperator s.current = true := ht.zero_le_strength_iff.mp (by omega)
      have hend := Table.ne_end_of_isOperator hop
      refine advance_bind_stops levels hend (by rw [ht.bracketWeight_eq_zero hop]; omega)
        (fun s1 _ h => ?_) h
      refine hoperand.bind_stops hfails (fun _ _ h => (hQ _ _ h).balance_eq_zero ht) ?_ h
      intro _ s2 h
      exact ih _ (by simp) _ _ _ (bind_pure_eq_error_iff.mp h)

private theorem chain_fails (ht : t.Legal) {least : Int} (hleast : 0 ≤ least)
    (hoperand : Reads operand Q Uncalled) (hQ : ∀ ts e, Q ts e → Derives t .primary ts)
    (hfails : Fails levels operand) (first : Expr) :
    Fails levels (chain (.ofTable t) operand (.integer least) first) := by
  intro s e s' h
  rw [chain, left_bind] at h
  replace h := bind_pure_eq_error_iff.mp h
  exact links_fails ht hleast hoperand hQ hfails none (by simp) _ _ _ _ h

private theorem expressionOver_fails (ht : t.Legal) (hoperand : Reads operand Q Uncalled)
    (hQ : ∀ ts e, Q ts e → Derives t .primary ts) (hfails : Fails levels operand) :
    Fails levels (expressionOver (.ofTable t) operand) := by
  intro s e s' h
  refine hoperand.bind_stops hfails (fun _ _ h => (hQ _ _ h).balance_eq_zero ht) ?_ h
  exact fun first s1 h => chain_fails ht (Int.le_refl 0) hoperand hQ hfails first _ _ _ h

end

/-- Only as many open brackets as there are levels make an operand nest too deep. -/
theorem operand_fails (ht : t.Legal) (levels : Nat) :
    Fails levels (operand (.ofTable t) levels) := by
  induction levels with
  | zero =>
    intro s e s' h
    cases h
    exact .tooDeep (.refl s) (Int.le_refl 0)
  | succ levels ih =>
    exact operandOver_fails ht
      (expressionOver_reads ht (operand_reads ht levels) fun _ _ => Phrase.Operand.derives)
      (fun _ _ => Phrase.Expression.derives)
      (expressionOver_fails ht (operand_reads ht levels) (fun _ _ => Phrase.Operand.derives) ih)

theorem expression_fails (ht : t.Legal) (levels : Nat) :
    Fails levels (expression (.ofTable t) levels) :=
  expressionOver_fails ht (operand_reads ht levels) (fun _ _ => Phrase.Operand.derives)
    (operand_fails ht levels)

private theorem parameters_fails (count : Nat) : Fails levels (parameters count) := by
  induction count with
  | zero =>
    intro s e s' h
    cases h
  | succ count ih =>
    intro s e s' h
    rw [parameters_succ] at h
    split at h
    · rename_i hname
      have hend := Token.ne_end_of_isName hname
      refine advance_bind_stops levels hend (by rw [bracketWeight_of_isName hname]; omega)
        (fun s1 _ h => ?_) h
      exact ih _ _ _ (bind_pure_eq_error_iff.mp h)
    · cases h

private theorem prototype_fails : Fails levels prototype := by
  intro s e s' h
  rw [prototype, current_bind] at h
  cases hk : s.current.kind with
  | identifier name =>
    have hweight : bracketWeight s.current = 0 :=
      bracketWeight_of_isName (Token.isName_iff.mpr ⟨_, hk⟩)
    simp only [hk] at h
    refine advance_bind_stops levels (by simp [hk]) (by omega) (fun s1 _ h => ?_) h
    refine expect_bind_stops (levels - 1) opening_eq_singleton
      (fun hopen => by rw [bracketWeight_opening hopen]; omega) (fun _ s2 h => ?_) h
    rw [left_bind] at h
    rcases bind_eq_error_iff.mp h with h | ⟨_, s3, hread, h⟩
    · exact parameters_fails _ _ _ _ h
    · obtain ⟨ts, hpass, hts, _⟩ :=
        (parameters_eq_ok_iff _ fun _ => Nat.lt_succ_self _).mp hread
      have hstops : Stops (levels - 1) s3 e s' := by
        refine expect_bind_stops levels closing_eq_singleton
          (fun hclose => by rw [bracketWeight_closing hclose]; omega) (fun _ _ h => ?_) h
        cases h
      exact hstops.after hpass (by rw [balance_names hts]; omega)
  | _ =>
    simp only [hk] at h
    exact fail_stops h

theorem item_fails (ht : t.Legal) (levels : Nat) : Fails levels (item (.ofTable t) levels) := by
  have hproto (us : List Token) (p : Prototype) (h : Phrase.Header us p) : balance us = 0 :=
    (h.derives : Derives t .prototype us).balance_eq_zero ht
  have hkeyword {token : Token} {c : TokenKind} (h : token.kind = c)
      (hc : c = .defKeyword ∨ c = .externKeyword) : bracketWeight token = 0 := by
    rcases hc with rfl | rfl <;> simp [bracketWeight, Token.isSymbol, h]
  intro s e s' h
  rw [item_eq] at h
  split at h
  · rename_i hkey
    refine advance_bind_stops levels (by simp [hkey])
      (by rw [hkeyword hkey (.inl rfl)]; omega) (fun s1 _ h => ?_) h
    refine prototype_reads.bind_stops prototype_fails hproto (fun proto s2 h => ?_) h
    exact expression_fails ht _ _ _ _ (bind_pure_eq_error_iff.mp h)
  split at h
  · rename_i hkey
    refine advance_bind_stops levels (by simp [hkey])
      (by rw [hkeyword hkey (.inr rfl)]; omega) (fun s1 _ h => ?_) h
    exact prototype_fails _ _ _ (bind_pure_eq_error_iff.mp h)
  · exact expression_fails ht _ _ _ _ (bind_pure_eq_error_iff.mp h)

end Reader

/-- What ends a program too early stops it as it would stop an expression. -/
theorem Progress.within_stops {t : Table} (ht : t.Legal) {levels : Nat} (count : Nat)
    {s : Lookahead} {e : SyntaxError} (h : (within (.ofTable t) levels count s).error = some e) :
    Stops levels s e (within (.ofTable t) levels count s).state := by
  induction count generalizing s with
  | zero => cases h
  | succ count ih =>
    by_cases hend : s.current.kind = .endOfInput
    · rw [within, if_pos hend] at h
      cases h
    rw [within_succ _ _ hend] at h ⊢
    split at h
    · rename_i hsemi
      rw [if_pos hsemi]
      cases hadvance : Reader.advance s with
      | ok _ s1 =>
        rw [hadvance] at h
        refine (ih h).step hend hadvance ?_
        rw [bracketWeight_of_isSymbol hsemi (by decide)]
        omega
      | error e' s1 =>
        rw [hadvance] at h
        cases h
        exact .fault (.refl s) hend hadvance
    · rename_i hsemi
      rw [if_neg hsemi]
      cases hitem : Reader.item (.ofTable t) levels s with
      | ok item s1 =>
        rw [hitem] at h
        obtain ⟨ts, hpass, hts, _⟩ := (Reader.item_reads ht _ _ _ _).mp hitem
        refine (ih h).after hpass ?_
        rw [hts.balance_eq_zero ht]
        omega
      | error e' s1 =>
        rw [hitem] at h
        cases h
        exact Reader.item_fails ht _ _ _ _ hitem

end ExprLang
