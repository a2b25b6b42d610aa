import ExprLang.Proofs.Reading.Acceptance
import ExprLang.Proofs.Reading.Language

/-! Where reading stops at an unexpected token, what was read so far could have gone on otherwise. A
reader that finds no such way on would have had to stop before. -/
namespace ExprLang

private theorem Passes.head_append {s s' : Lookahead} {us : List Token} (h : Passes s us s')
    (zs : List Token) : ∃ rest, us ++ s'.current :: zs = s.current :: rest := by
  cases h with
  | refl => exact ⟨zs, rfl⟩
  | step _ _ _ => exact ⟨_, rfl⟩

/-- Reading stops at a token at which no word of a language goes on. -/
inductive StopsAt (L : Language) (s : Lookahead) : Token → Lookahead → Prop
  | intro {us : List Token} {s' : Lookahead} (hpass : Passes s us s')
      (hrefuses : L.Refuses us s'.current) : StopsAt L s s'.current s'

namespace StopsAt
variable {L M N : Language} {s s1 s' : Lookahead} {got : Token}

theorem exists_passes (h : StopsAt L s got s') :
    got = s'.current ∧ ∃ us, Passes s us s' ∧ L.Refuses us s'.current := by
  obtain ⟨hpass, hrefuses⟩ := h
  exact ⟨rfl, _, hpass, hrefuses⟩

theorem imp (h : StopsAt L s got s') (hword : ∀ ⦃ws⦄, L.Word ws → M.Word ws)
    (hfits : ∀ ⦃ws zs rest⦄, ws ++ zs = s.current :: rest → M.Fits ws zs → L.Fits ws zs) :
    StopsAt M s got s' := by
  obtain ⟨hpass, hrefuses⟩ := h
  refine .intro hpass (hrefuses.imp hword fun ws zs zs' he => ?_)
  obtain ⟨rest, hrest⟩ := hpass.head_append zs
  exact hfits (he.symm.trans hrest)

private theorem cons (h : StopsAt (L.after s.current) s1 got s')
    (hend : s.current.kind ≠ .endOfInput)
    (hadvance : Reader.advance s = .ok () s1) (hempty : ∀ zs, ¬ L.Fits [] (s.current :: zs)) :
    StopsAt L s got s' := by
  obtain ⟨hpass, hrefuses⟩ := h
  exact .intro (.step hend hadvance hpass) (hrefuses.cons hempty)

private theorem first (h : StopsAt L s got s') (hjoins : L.Joins N M) : StopsAt M s got s' := by
  obtain ⟨hpass, hrefuses⟩ := h
  exact .intro hpass (hrefuses.first hjoins)

private theorem second (h : StopsAt N s1 got s') (hjoins : L.Joins N M) (hL : L.Unambiguous)
    {us : List Token} (hpass : Passes s us s1) (hword : L.Word us)
    (hfollow : L.Follow us s1.current) : StopsAt M s got s' := by
  obtain ⟨hpass', hrefuses⟩ := h
  refine .intro (hpass.append hpass') (hrefuses.second hjoins hL fun zs => ⟨hword, ?_⟩)
  intro next hnext
  obtain ⟨rest, hrest⟩ := hpass'.head_append zs
  rw [hrest] at hnext
  cases hnext
  exact hfollow

end StopsAt

namespace Reader
variable {α β : Type} {t : Table} {L M N : Language} {s s' : Lookahead} {missing : Missing}
  {got : Token}

/-- Whenever a reader finds an unexpected token, it stops there early. -/
def Early (L : Language) (x : Reader α) : Prop :=
  ∀ ⦃s missing got s'⦄, x s = .error (.unexpected missing got) s' → StopsAt L s got s'

private theorem advance_ne_unexpected : advance s ≠ .error (.unexpected missing got) s' := by
  intro h
  obtain ⟨_, _, _, he, _⟩ := advance_eq_error_iff.mp h
  cases he

private theorem advance_bind_stopsAt {f : Unit → Reader β} (hend : s.current.kind ≠ .endOfInput)
    (hempty : ∀ zs, ¬ L.Fits [] (s.current :: zs))
    (hf : ∀ s1, advance s = .ok () s1 → f () s1 = .error (.unexpected missing got) s' →
      StopsAt (L.after s.current) s1 got s')
    (h : (advance >>= f) s = .error (.unexpected missing got) s') : StopsAt L s got s' := by
  rcases bind_eq_error_iff.mp h with h | ⟨_, s1, h1, h⟩
  · exact absurd h advance_ne_unexpected
  · exact (hf s1 h1 h).cons hend h1 hempty

private theorem fail_stopsAt {missing' : Missing} (hrefuses : L.Refuses [] s.current)
    (h : (fail missing' : Reader α) s = .error (.unexpected missing got) s') :
    StopsAt L s got s' := by
  cases h
  exact .intro (.refl s) hrefuses

private theorem advance_pure_ne_unexpected {a : α} :
    (advance >>= fun _ => pure a) s ≠ .error (.unexpected missing got) s' := by
  intro h
  exact advance_ne_unexpected (bind_pure_eq_error_iff.mp h)

private theorem expect_bind_stopsAt {type : String} {c : Char} (htype : type = String.singleton c)
    {missing' : Missing} {f : Token → Reader β}
    (hrefuses : ¬ s.current.isSymbol c = true → L.Refuses [] s.current)
    (hempty : ∀ zs, ¬ L.Fits [] (s.current :: zs))
    (hf : s.current.isSymbol c = true → ∀ s1,
      f s.current s1 = .error (.unexpected missing got) s' → StopsAt (L.after s.current) s1 got s')
    (h : (expect type missing' >>= f) s = .error (.unexpected missing got) s') :
    StopsAt L s got s' := by
  rw [expect_bind htype] at h
  split at h
  · rename_i hc
    exact advance_bind_stopsAt (Token.ne_end_of_isSymbol hc) hempty (fun s1 _ h => hf hc s1 h) h
  · rename_i hc
    exact fail_stopsAt (hrefuses hc) h

private theorem Reads.bind_stopsAt {x : Reader α} {f : α → Reader β} {phrase : Phrase α}
    (hx : Reads x phrase L.Follow) (hearly : Early L x) (hword : ∀ ts a, phrase ts a → L.Word ts)
    (hjoins : L.Joins N M) (hL : L.Unambiguous)
    (hf : ∀ a s1, f a s1 = .error (.unexpected missing got) s' → StopsAt N s1 got s')
    (h : (x >>= f) s = .error (.unexpected missing got) s') : StopsAt M s got s' := by
  rcases bind_eq_error_iff.mp h with h | ⟨a, s1, ha, h⟩
  · exact (hearly h).first hjoins
  · obtain ⟨ts, hpass, hts, hfollow⟩ := (hx _ _ _).mp ha
    exact (hf a s1 h).second hjoins hL hpass (hword _ _ hts) hfollow

section
variable {inner : Reader Expr} {P : Phrase Expr}

private theorem arguments_early (ht : t.Legal) (hinner : Reads inner P (Follows t))
    (hP : ∀ ts e, P ts e → Derives t .expression ts) (hearly : Early (.expression t) inner)
    (count : Nat) : Early (.callEnd t) (arguments inner count) := by
  induction count with
  | zero =>
    intro _ _ _ _ h
    cases h
  | succ count ih =>
    intro s missing got s' h
    rw [arguments] at h
    refine hinner.bind_stopsAt hearly hP (Language.joins_arguments ht)
      (Language.expression_unambiguous ht) (fun arg s1 h => ?_) h
    rw [current_bind] at h
    split at h
    · exact absurd h advance_pure_ne_unexpected
    · rename_i hclose
      split at h
      · rename_i hcomma
        refine advance_bind_stopsAt (Token.ne_end_of_isSymbol hcomma) ?_ (fun s2 _ h => ?_) h
        · rintro zs ⟨⟨_, he, _⟩ | ⟨_, _, he, _⟩, _⟩ <;> cases he
        replace h := bind_pure_eq_error_iff.mp h
        exact (ih h).imp (fun ws hws => .inr ⟨_, ws, rfl, hcomma, hws⟩)
          fun _ _ _ _ => Language.fits_callEnd_of_comma hcomma
      · rename_i hcomma
        exact fail_stopsAt (Language.refuses_argumentEnd hclose hcomma) h

private theorem nameOrCall_stopsAt (ht : t.Legal) (hinner : Reads inner P (Follows t))
    (hP : ∀ ts e, P ts e → Derives t .expression ts) (hearly : Early (.expression t) inner)
    (hname : s.current.isName = true)
    (h : nameOrCall inner s = .error (.unexpected missing got) s') :
    StopsAt (.operand t) s got s' := by
  have hend := Token.ne_end_of_isName hname
  rw [nameOrCall, current_bind] at h
  refine advance_bind_stopsAt hend (fun _ h => h.word.primary_ne_nil rfl) (fun s1 _ h => ?_) h
  rw [current_bind] at h
  split at h
  · rename_i hopen
    refine advance_bind_stopsAt (Token.ne_end_of_isSymbol hopen) (fun zs hfits => ?_)
      (fun s2 _ h => ?_) h
    · have huncalled := hfits.follow s1.current rfl (endsInName_singleton.mpr hname)
      simp [hopen] at huncalled
    rw [current_bind] at h
    split at h
    · exact absurd h advance_pure_ne_unexpected
    · rename_i hclose
      rw [left_bind] at h
      replace h := bind_pure_eq_error_iff.mp h
      refine (arguments_early ht hinner hP hearly _ h).imp ?_ fun ws zs rest he =>
        Language.fits_callEnd hname hclose he
      rintro _ ⟨args, close, rfl, hargs, hclose⟩
      exact .call hname hopen hargs hclose
  · cases h

private theorem operandOver_early (ht : t.Legal) (hinner : Reads inner P (Follows t))
    (hP : ∀ ts e, P ts e → Derives t .expression ts) (hearly : Early (.expression t) inner) :
    Early (.operand t) (operandOver inner) := by
  intro s missing got s' h
  rw [operandOver_eq] at h
  split at h
  · rename_i hname
    exact nameOrCall_stopsAt ht hinner hP hearly hname h
  split at h
  · rename_i hnumber
    obtain ⟨value, hk⟩ := Token.isNumber_iff.mp hnumber
    rw [number, current_bind] at h
    simp only [hk] at h
    exact absurd h advance_pure_ne_unexpected
  split at h
  · rename_i hopen
    rw [bracketed] at h
    refine advance_bind_stopsAt (Token.ne_end_of_isSymbol hopen)
      (fun _ h => h.word.primary_ne_nil rfl) (fun s1 _ h => ?_) h
    refine hinner.bind_stopsAt hearly hP (Language.joins_brackets ht hopen)
      (Language.expression_unambiguous ht) (fun _ s2 h => ?_) h
    refine expect_bind_stopsAt closing_eq_singleton Language.refuses_closing ?_
      (fun _ _ h => ?_) h
    · rintro zs ⟨⟨_, he, _⟩, _⟩
      cases he
    · cases h
  · rename_i hname hnumber hopen
    cases h
    exact .intro (.refl s) (Language.refuses_operand hname hnumber hopen)

end

section
variable {operand : Reader Expr} {Q : Phrase Expr}

private theorem links_early (ht : t.Legal) (hoperand : Reads operand Q Uncalled)
    (hQ : ∀ ts e, Q ts e → Derives t .primary ts) (hearly : Early (.operand t) operand)
    (before : Option Value) (hbefore : ∀ v ∈ before, ∃ n, v = .integer n) (count : Nat) :
    Early (.links t) (links (.ofTable t) operand (.integer 0) before count) := by
  induction count generalizing before with
  | zero =>
    intro _ _ _ _ h
    cases h
  | succ count ih =>
    intro s missing got s' h
    rw [links_succ before hbefore] at h
    split at h
    · cases h
    · have hop : t.isOperator s.current = true := ht.zero_le_strength_iff.mp (by omega)
      have hend := Table.ne_end_of_isOperator hop
      refine advance_bind_stopsAt hend (fun zs hfits => ?_) (fun s1 _ h => ?_) h
      · have hended := (hfits.follow s.current rfl).ended
        simp [hop] at hended
      refine hoperand.bind_stopsAt hearly hQ (Language.joins_link ht hop)
        (Language.operand_unambiguous ht) (fun _ s2 h => ?_) h
      exact ih _ (by simp) (bind_pure_eq_error_iff.mp h)

private theorem expressionOver_early (ht : t.Legal) (hoperand : Reads operand Q Uncalled)
    (hQ : ∀ ts e, Q ts e → Derives t .primary ts) (hearly : Early (.operand t) operand) :
    Early (.expression t) (expressionOver (.ofTable t) operand) := by
  intro s missing got s' h
  refine hoperand.bind_stopsAt hearly hQ (Language.joins_chain ht)
    (Language.operand_unambiguous ht) (fun first s1 h => ?_) h
  rw [chain, left_bind] at h
  exact links_early ht hoperand hQ hearly none (by simp) _ (bind_pure_eq_error_iff.mp h)

end

private theorem operand_early (ht : t.Legal) (levels : Nat) :
    Early (.operand t) (operand (.ofTable t) levels) := by
  induction levels with
  | zero =>
    intro _ _ _ _ h
    cases h
  | succ levels ih =>
    exact operandOver_early ht
      (expressionOver_reads ht (operand_reads ht levels) fun _ _ => Phrase.Operand.derives)
      (fun _ _ => Phrase.Expression.derives)
      (expressionOver_early ht (operand_reads ht levels) (fun _ _ => Phrase.Operand.derives) ih)

theorem expression_early (ht : t.Legal) (levels : Nat) :
    Early (.expression t) (expression (.ofTable t) levels) :=
  expressionOver_early ht (operand_reads ht levels) (fun _ _ => Phrase.Operand.derives)
    (operand_early ht levels)

private theorem parameters_ne_unexpected (count : Nat) :
    parameters count s ≠ .error (.unexpected missing got) s' := by
  induction count generalizing s with
  | zero =>
    intro h
    cases h
  | succ count ih =>
    intro h
    rw [parameters_succ] at h
    split at h
    · rcases bind_eq_error_iff.mp h with h | ⟨_, s1, _, h⟩
      · exact advance_ne_unexpected h
      · exact ih (bind_pure_eq_error_iff.mp h)
    · cases h

private theorem prototype_early : Early (.prototype t) prototype := by
  intro s missing got s' h
  rw [prototype, current_bind] at h
  cases hk : s.current.kind with
  | identifier name =>
    have hname : s.current.isName = true := Token.isName_iff.mpr ⟨_, hk⟩
    simp only [hk] at h
    refine advance_bind_stopsAt (by simp [hk]) ?_ (fun s1 _ h => ?_) h
    · rintro _ ⟨⟨⟩, _⟩
    refine expect_bind_stopsAt opening_eq_singleton (Language.refuses_parameters hname) ?_
      (fun hopen s2 h => ?_) h
    · rintro _ ⟨⟨⟩, _⟩
    rw [left_bind] at h
    rcases bind_eq_error_iff.mp h with h | ⟨_, s3, hread, h⟩
    · exact absurd h (parameters_ne_unexpected _)
    · obtain ⟨ts, hpass, hts, _, hstop⟩ :=
        (parameters_eq_ok_iff _ fun _ => Nat.lt_succ_self _).mp hread
      have hclosing : StopsAt .closing s3 got s' := by
        refine expect_bind_stopsAt closing_eq_singleton Language.refuses_closing ?_
          (fun _ _ h => ?_) h
        · rintro zs ⟨⟨_, he, _⟩, _⟩
          cases he
        · cases h
      exact hclosing.second (Language.joins_parameters hname hopen) Language.names_unambiguous
        hpass hts hstop
  | _ =>
    simp only [hk] at h
    exact fail_stopsAt (Language.refuses_prototype (by simp [Token.isName, hk])) h

private theorem item_early (ht : t.Legal) (levels : Nat) :
    Early (.item t) (item (.ofTable t) levels) := by
  have hempty (s : Lookahead) (zs : List Token) : ¬ (Language.item t).Fits [] (s.current :: zs) := by
    intro h
    obtain ⟨_, _, he, _⟩ := Language.item_eq_cons h.word
    cases he
  intro s missing got s' h
  rw [item_eq] at h
  split at h
  · rename_i hkey
    refine advance_bind_stopsAt (by simp [hkey]) (hempty s) (fun s1 _ h => ?_) h
    refine prototype_reads.bind_stopsAt prototype_early (fun _ _ => Phrase.Header.derives)
      (Language.joins_definition hkey) Language.prototype_unambiguous (fun _ s2 h => ?_) h
    exact expression_early ht levels (bind_pure_eq_error_iff.mp h)
  · rename_i hdef
    split at h
    · rename_i hkey
      refine advance_bind_stopsAt (by simp [hkey]) (hempty s) (fun s1 _ h => ?_) h
      replace h := bind_pure_eq_error_iff.mp h
      exact (prototype_early h).imp (fun _ hws => .inr (.inl (.external hkey hws)))
        fun _ _ _ _ => Language.fits_external hkey
    · rename_i hexternal
      replace h := bind_pure_eq_error_iff.mp h
      refine (expression_early ht levels h).imp (fun _ hws => .inr (.inr hws))
        fun ws zs rest he hfits => ?_
      refine Language.fits_expression hdef hexternal hfits fun first hfirst => ?_
      obtain ⟨_, _, rfl, _⟩ := Language.item_eq_cons hfits.word
      cases hfirst
      exact (List.cons.inj he).1

end Reader

/-- A program stops where one of its items stops. -/
theorem Progress.within_stopsAt {t : Table} (ht : t.Legal) {levels : Nat} (count : Nat)
    {s : Lookahead} {missing : Missing} {got : Token}
    (h : (within (.ofTable t) levels count s).error = some (.unexpected missing got)) :
    StopsAt (.whole t .program) s got (within (.ofTable t) levels count s).state := by
  induction count generalizing s with
  | zero => cases h
  | succ count ih =>
    by_cases hend : s.current.kind = .endOfInput
    · rw [within, if_pos hend] at h
      cases h
    rw [within_succ _ _ hend] at h ⊢
    split at h
    · rename_i hsemi
      rw [if_pos hsemi]
      cases hadvance : Reader.advance s with
      | ok _ s1 =>
        rw [hadvance] at h
        refine StopsAt.cons ?_ hend hadvance fun zs hfits => hend (hfits.follow _ rfl)
        exact (ih h).imp (fun _ => .semicolon hsemi)
          fun _ _ _ _ => Language.fits_program_of_semicolon ht hsemi
      | error e' s1 =>
        rw [hadvance] at h
        cases h
        exact absurd hadvance Reader.advance_ne_unexpected
    · rename_i hsemi
      rw [if_neg hsemi]
      suffices hitems : StopsAt (.items t) s got _ from hitems.imp (fun _ hws => hws.1)
        fun _ _ _ he => Language.fits_items hend hsemi he
      cases hitem : Reader.item (.ofTable t) levels s with
      | ok item s1 =>
        rw [hitem] at h
        obtain ⟨ts, hpass, hts, hfollow⟩ := (Reader.item_reads ht _ _ _ _).mp hitem
        exact (ih h).second (Language.joins_items ht) (Language.item_unambiguous ht) hpass
          hts.derives hfollow
      | error e' s1 =>
        rw [hitem] at h
        cases h
        exact (Reader.item_early ht levels hitem).first (Language.joins_items ht)

end ExprLang
