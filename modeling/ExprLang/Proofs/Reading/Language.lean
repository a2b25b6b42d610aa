import ExprLang.Proofs.Grammar.Viable
import ExprLang.Proofs.Reading.Program

/-! The phrases of the grammar as languages. Where a token may stand behind the words of a language,
a reader finds at most one of them. -/
namespace ExprLang

namespace Language
variable {L : Language} {t : Table}

/-- A reader that can be made to find any two words finds only one of them. -/
theorem unambiguous_of_reads (α : Type)
    (hend : ∀ ws, L.Word ws → ∀ u ∈ ws, u.kind ≠ .endOfInput)
    (hfollow : ∀ ws pos, L.Follow ws ⟨.endOfInput, pos⟩)
    (hreads : ∀ ws ws', L.Word ws → L.Word ws' → ∃ (x : Reader α) (phrase : Phrase α),
      Reader.Reads x phrase L.Follow ∧ (∃ a, phrase ws a) ∧ ∃ a, phrase ws' a) :
    L.Unambiguous := by
  intro ws zs ws' zs' hws hws' he
  obtain ⟨x, phrase, hx, ⟨a, ha⟩, ⟨a', ha'⟩⟩ := hreads ws ws' hws.word hws'.word
  have hread {us vs : List Token} {b : α} (hus : L.Fits us vs) (hb : phrase us b) :
      x (.ofTokens .start 0 (us ++ vs)) = .ok b (.ofTokens .start (0 + us.length) vs) := by
    refine (hx _ _ _).mpr ⟨us, .ofTokens 0 (hend us hus.word), hb, ?_⟩
    cases vs with
    | nil => exact hfollow us _
    | cons v vs => exact hus.follow v rfl
  have hsame := hread hws ha
  rw [he, hread hws' ha', EStateM.Result.ok.injEq] at hsame
  have hlength : 0 + ws'.length = 0 + ws.length := by
    simpa using congrArg Lookahead.taken hsame.2
  exact List.append_inj_left he (by omega)

def operand (t : Table) : Language := ⟨Derives t .primary, Uncalled⟩

def links (t : Table) : Language := ⟨Derives t .links, Follows t⟩

def expression (t : Table) : Language := ⟨Derives t .expression, Follows t⟩

def closing : Language :=
  ⟨fun ws => ∃ close : Token, ws = [close] ∧ close.isSymbol ')' = true, fun _ _ => True⟩

/-- Arguments and the closing bracket behind them. -/
def callEnd (t : Table) : Language :=
  ⟨fun ws => ∃ args close, ws = args ++ [close] ∧ Derives t .arguments args ∧
    close.isSymbol ')' = true, fun _ _ => True⟩

def argumentEnd (t : Table) : Language :=
  ⟨fun ws => closing.Word ws ∨ ∃ comma us, ws = comma :: us ∧ comma.isSymbol ',' = true ∧
    (callEnd t).Word us, fun _ _ => True⟩

def names : Language := ⟨fun ws => ∀ w ∈ ws, w.isName = true, fun _ next => next.isName = false⟩

def prototype (t : Table) : Language := ⟨Derives t .prototype, fun _ _ => True⟩

def item (t : Table) : Language :=
  ⟨fun ws => Derives t .definition ws ∨ Derives t .external ws ∨ Derives t .expression ws,
    Reader.FollowsItem t⟩

def whole (t : Table) (k : Nonterminal) : Language :=
  ⟨Derives t k, fun _ next => next.kind = .endOfInput⟩

def items (t : Table) : Language :=
  ⟨fun ws => Derives t .program ws ∧ ∃ head ∈ ws.head?, ¬ head.isSymbol ';' = true,
    fun _ next => next.kind = .endOfInput⟩

private theorem fits_links (ht : t.Legal) (ts : List Token) {us zs : List Token}
    (hlinks : Derives t .links us) (hfollow : ∀ next ∈ zs.head?, Follows t (ts ++ us) next) :
    (∀ next ∈ (us ++ zs).head?, Uncalled ts next) ∧ (links t).Fits us zs := by
  have hfits : (links t).Fits us zs :=
    ⟨hlinks, fun next hnext => ⟨(uncalled_append.mp (hfollow next hnext).uncalled).1,
      (hfollow next hnext).ended⟩⟩
  refine ⟨fun next hnext => ?_, hfits⟩
  cases hlinks with
  | noLink => exact (uncalled_append.mp (hfollow next hnext).uncalled).2 rfl
  | link hop _ _ =>
    cases hnext
    exact fun _ => ht.isSymbol_eq_false hop (by decide)

theorem joins_chain (ht : t.Legal) : Joins (operand t) (links t) (expression t) where
  join _ _ := .expression
  split := by
    intro _ zs h
    obtain ⟨first, links, rfl, hfirst, hlinks⟩ := h.word.eq_chain
    obtain ⟨hfollow, hfits⟩ := fits_links ht first hlinks h.follow
    exact ⟨first, links, rfl, ⟨hfirst, hfollow⟩, hfits⟩
  inhabited := ⟨[], .noLink⟩

theorem joins_link (ht : t.Legal) {operator : Token} (hop : t.isOperator operator = true) :
    Joins (operand t) (links t) ((links t).after operator) where
  join _ _ := .link hop
  split := by
    rintro _ zs ⟨hword, hfollow⟩
    cases hword with
    | link hop hright hlinks =>
      obtain ⟨hright', hfits⟩ := fits_links ht (operator :: _) hlinks hfollow
      refine ⟨_, _, rfl, ⟨hright, fun next hnext => ?_⟩, hfits⟩
      exact (uncalled_cons hright.primary_ne_nil).mp (hright' next hnext)
  inhabited := ⟨[], .noLink⟩

private theorem closing_word : closing.Word [⟨.symbol ')', .start⟩] := ⟨_, rfl, rfl⟩

theorem joins_arguments (ht : t.Legal) : Joins (expression t) (argumentEnd t) (callEnd t) where
  join := by
    rintro us _ hus (⟨close, rfl, hclose⟩ | ⟨comma, _, rfl, hcomma, args, close, rfl, hargs⟩)
    · exact ⟨us, close, rfl, .lastArgument hus, hclose⟩
    · obtain ⟨hargs, hclose⟩ := hargs
      exact ⟨us ++ comma :: args, close, by simp, .moreArguments hus hcomma hargs, hclose⟩
  split := by
    rintro _ zs ⟨⟨args, close, rfl, hargs, hclose⟩, _⟩
    cases hargs with
    | lastArgument harg =>
      refine ⟨_, _, rfl, ⟨harg, fun next hnext => ?_⟩, .inl ⟨close, rfl, hclose⟩,
        fun _ _ => trivial⟩
      cases hnext
      exact .of_isSymbol ht hclose (by decide) (by decide)
    | @moreArguments comma ts us harg hcomma hrest =>
      refine ⟨ts, comma :: (us ++ [close]), by simp, ⟨harg, fun next hnext => ?_⟩,
        .inr ⟨comma, _, rfl, hcomma, us, close, rfl, hrest, hclose⟩, fun _ _ => trivial⟩
      cases hnext
      exact .of_isSymbol ht hcomma (by decide) (by decide)
  inhabited := ⟨_, .inl closing_word⟩

theorem joins_brackets (ht : t.Legal) {opening : Token} (hopen : opening.isSymbol '(' = true) :
    Joins (expression t) closing ((operand t).after opening) where
  join := by
    rintro us _ hus ⟨close, rfl, hclose⟩
    exact .bracketed hopen hus hclose
  split := by
    rintro _ zs ⟨hword, _⟩
    obtain ⟨_, inner, close, he, _, hinner, hclose⟩ := hword.eq_bracketed ⟨opening, rfl, hopen⟩
    cases he
    refine ⟨inner, [close], rfl, ⟨hinner, fun next hnext => ?_⟩, ⟨close, rfl, hclose⟩,
      fun _ _ => trivial⟩
    cases hnext
    exact .of_isSymbol ht hclose (by decide) (by decide)
  inhabited := ⟨_, closing_word⟩

theorem joins_parameters {name opening : Token} (hname : name.isName = true)
    (hopen : opening.isSymbol '(' = true) :
    Joins names closing (((prototype t).after name).after opening) where
  join := by
    rintro us _ hus ⟨close, rfl, hclose⟩
    exact .prototype hname hopen hus hclose
  split := by
    rintro _ zs ⟨hword, _⟩
    cases hword with
    | @prototype _ _ close params _ _ hparams hclose =>
      refine ⟨params, [close], rfl, ⟨hparams, fun next hnext => ?_⟩, ⟨close, rfl, hclose⟩,
        fun _ _ => trivial⟩
      cases hnext
      exact Token.isName_eq_false hclose
  inhabited := ⟨_, closing_word⟩

theorem joins_definition {keyword : Token} (hkey : keyword.kind = .defKeyword) :
    Joins (prototype t) (expression t) ((item t).after keyword) where
  join _ _ hus hvs := .inl (.definition hkey hus hvs)
  split := by
    rintro ws zs ⟨hword, hfollow⟩
    rcases hword with h | h | h
    · cases h with
      | definition _ hproto hbody =>
        refine ⟨_, _, rfl, ⟨hproto, fun _ _ => trivial⟩, hbody, fun next hnext => ?_⟩
        obtain ⟨hcall, hended⟩ := hfollow next hnext (by simp [hkey])
        rw [uncalled_cons (by simp [hbody.expression_ne_nil])] at hcall
        exact ⟨(uncalled_append.mp hcall).1, hended⟩
    · cases h with
      | external h _ => cases hkey.symm.trans h
    · obtain ⟨_, _, he, htoken⟩ := h.expression_eq_cons
      cases he
      simp [Token.isNumber, Token.isName, Token.isSymbol, hkey] at htoken
  inhabited := ⟨[⟨.identifier "x", .start⟩], .of_primary (.name rfl)⟩

/-- A declaration is `extern` and a prototype. -/
theorem fits_external {keyword : Token} {ws zs : List Token}
    (hkey : keyword.kind = .externKeyword) (h : ((item t).after keyword).Fits ws zs) :
    (prototype t).Fits ws zs := by
  refine ⟨?_, fun _ _ => trivial⟩
  rcases h.word with hword | hword | hword
  · cases hword with
    | definition hdef _ _ => cases hkey.symm.trans hdef
  · cases hword with
    | external _ hproto => exact hproto
  · obtain ⟨_, _, he, htoken⟩ := hword.expression_eq_cons
    cases he
    simp [Token.isNumber, Token.isName, Token.isSymbol, hkey] at htoken

/-- Without a keyword in front, an item is an expression. -/
theorem fits_expression {head : Token} {ws zs : List Token} (hdef : head.kind ≠ .defKeyword)
    (hexternal : head.kind ≠ .externKeyword) (h : (item t).Fits ws zs)
    (hhead : ∀ first ∈ ws.head?, first = head) : (expression t).Fits ws zs := by
  refine ⟨?_, fun next hnext => h.follow next hnext fun first hfirst => ?_⟩
  · rcases h.word with hword | hword | hword
    · cases hword with
      | definition hkey _ _ => exact absurd (hhead _ rfl ▸ hkey) hdef
    · cases hword with
      | external hkey _ => exact absurd (hhead _ rfl ▸ hkey) hexternal
    · exact hword
  · rwa [hhead first hfirst]

/-- An item begins with a keyword or like an operand, so with no semicolon. -/
theorem item_eq_cons {ws : List Token} (h : (item t).Word ws) :
    ∃ head rest, ws = head :: rest ∧ ¬ head.isSymbol ';' = true := by
  rcases h with h | h | h
  · cases h with
    | definition hkey _ _ => exact ⟨_, _, rfl, by simp [Token.isSymbol, hkey]⟩
  · cases h with
    | external hkey _ => exact ⟨_, _, rfl, by simp [Token.isSymbol, hkey]⟩
  · obtain ⟨head, rest, rfl, hhead⟩ := h.expression_eq_cons
    refine ⟨head, rest, rfl, fun hsemi => ?_⟩
    simp [Token.isNumber, Token.isName, Token.isSymbol, Token.isSymbol_iff.mp hsemi] at hhead

theorem operand_unambiguous (ht : t.Legal) : (operand t).Unambiguous := by
  refine unambiguous_of_reads Expr (fun _ h => h.kind_ne_end) (fun _ _ => .of_end rfl)
    fun ws ws' h h' => ?_
  -- The reader has to allow as many levels as either word needs.
  obtain ⟨e, he⟩ : ∃ e, Phrase.Operand t (nesting ws + nesting ws' + 1) ws e :=
    Phrase.exists_operand ht h (by omega)
  obtain ⟨e', he'⟩ : ∃ e, Phrase.Operand t (nesting ws + nesting ws' + 1) ws' e :=
    Phrase.exists_operand ht h' (by omega)
  exact ⟨_, _, Reader.operand_reads ht _, ⟨e, he⟩, e', he'⟩

theorem expression_unambiguous (ht : t.Legal) : (expression t).Unambiguous := by
  refine unambiguous_of_reads Expr (fun _ h => h.kind_ne_end) (fun _ _ => .of_end rfl)
    fun ws ws' h h' => ?_
  obtain ⟨e, he⟩ : ∃ e, Phrase.Expression t (nesting ws + nesting ws' + 1) ws e :=
    Phrase.exists_expression ht h (by omega)
  obtain ⟨e', he'⟩ : ∃ e, Phrase.Expression t (nesting ws + nesting ws' + 1) ws' e :=
    Phrase.exists_expression ht h' (by omega)
  exact ⟨_, _, Reader.expressionOver_reads ht (Reader.operand_reads ht _)
    fun _ _ => Phrase.Operand.derives, ⟨e, he⟩, e', he'⟩

theorem prototype_unambiguous : (prototype t).Unambiguous :=
  unambiguous_of_reads Prototype (fun _ h => h.kind_ne_end) (fun _ _ => trivial) fun _ _ h h' =>
    ⟨_, _, Reader.prototype_reads, Phrase.exists_header h, Phrase.exists_header h'⟩

theorem names_unambiguous : names.Unambiguous := by
  have hsplit {us vs : List Token} (h : names.Fits us vs) :
      (us ++ vs).takeWhile Token.isName = us := by
    rw [List.takeWhile_append_of_pos h.word]
    cases vs with
    | nil => simp
    | cons v vs => simp [show v.isName = false from h.follow v rfl]
  intro ws zs ws' zs' h h' he
  rw [← hsplit h, he, hsplit h']

theorem item_unambiguous (ht : t.Legal) : (item t).Unambiguous := by
  intro ws zs ws' zs' h h' he
  obtain ⟨head, us, rfl, _⟩ := item_eq_cons h.word
  obtain ⟨head', us', rfl, _⟩ := item_eq_cons h'.word
  obtain ⟨rfl, htail⟩ := List.cons.inj he
  by_cases hdef : head.kind = .defKeyword
  · have hunambiguous := (joins_definition hdef).unambiguous prototype_unambiguous
      (expression_unambiguous ht)
    rw [hunambiguous ⟨h.word, h.follow⟩ ⟨h'.word, h'.follow⟩ htail]
  by_cases hexternal : head.kind = .externKeyword
  · rw [prototype_unambiguous (fits_external hexternal ⟨h.word, h.follow⟩)
      (fits_external hexternal ⟨h'.word, h'.follow⟩) htail]
  · exact expression_unambiguous ht (fits_expression hdef hexternal h (by simp))
      (fits_expression hdef hexternal h' (by simp)) he

/-- However a program is derived, it begins with the item that a reader finds. -/
theorem joins_items (ht : t.Legal) : Joins (item t) (whole t .program) (items t) where
  join := by
    intro us vs hus hvs
    obtain ⟨head, rest, rfl, hsemi⟩ := item_eq_cons hus
    refine ⟨?_, head, rfl, hsemi⟩
    rcases hus with h | h | h
    · exact .definitionItem h hvs
    · exact .externalItem h hvs
    · exact .expressionItem h hvs
  split := by
    rintro ws zs ⟨⟨hword, head, hhead, hsemi⟩, hfollow⟩
    obtain ⟨found, hfound⟩ := Phrase.exists_program ht hword (Nat.lt_succ_self _)
    cases ws with
    | nil => cases hhead
    | cons w ws =>
      cases hhead
      obtain ⟨us, vs, _, _, he, _, hitem, hcall, hvs⟩ := hfound.eq_item hsemi
      refine ⟨us, vs, he, ⟨hitem.derives, fun next hnext _ => ?_⟩, hvs.derives, hfollow⟩
      cases vs with
      | nil => exact .of_end (hfollow next hnext)
      | cons v vs =>
        cases hnext
        exact hvs.follows ht hcall _ rfl
  inhabited := ⟨[], .noItem⟩

section
variable {got name opening comma operator : Token} {zs : List Token}

theorem refuses_operand (hname : ¬ got.isName = true) (hnumber : ¬ got.isNumber = true)
    (hopen : ¬ got.isSymbol '(' = true) : (operand t).Refuses [] got where
  viable := ⟨[⟨.identifier "x", .start⟩], .name rfl⟩
  blocked := by
    intro _ _ _ h he
    obtain ⟨token, rest, rfl, htoken⟩ := h.word.primary_eq_cons
    cases he
    simp [hname, hnumber, hopen] at htoken

theorem refuses_closing (hclose : ¬ got.isSymbol ')' = true) : closing.Refuses [] got where
  viable := ⟨_, closing_word⟩
  blocked := by
    rintro _ _ _ ⟨⟨close, rfl, h⟩, _⟩ he
    cases he
    exact hclose h

theorem refuses_argumentEnd (hclose : ¬ got.isSymbol ')' = true)
    (hcomma : ¬ got.isSymbol ',' = true) : (argumentEnd t).Refuses [] got where
  viable := ⟨_, .inl closing_word⟩
  blocked := by
    rintro _ _ _ ⟨⟨close, rfl, h⟩ | ⟨comma, _, rfl, h, _⟩, _⟩ he
    · cases he
      exact hclose h
    · cases he
      exact hcomma h

private theorem emptyPrototype {close : Token} (hname : name.isName = true)
    (hopen : opening.isSymbol '(' = true) (hclose : close.isSymbol ')' = true) :
    Derives t .prototype (name :: opening :: ([] ++ [close])) :=
  .prototype hname hopen (by simp) hclose

theorem refuses_prototype (hname : ¬ got.isName = true) : (prototype t).Refuses [] got where
  viable := ⟨[⟨.identifier "f", .start⟩, ⟨.symbol '(', .start⟩, ⟨.symbol ')', .start⟩],
    emptyPrototype rfl rfl rfl⟩
  blocked := by
    rintro _ _ _ ⟨hword, _⟩ he
    cases hword with
    | prototype h _ _ _ =>
      cases he
      exact hname h

theorem refuses_parameters (hname : name.isName = true) (hopen : ¬ got.isSymbol '(' = true) :
    ((prototype t).after name).Refuses [] got where
  viable := ⟨[⟨.symbol '(', .start⟩, ⟨.symbol ')', .start⟩],
    emptyPrototype hname rfl rfl⟩
  blocked := by
    rintro _ _ _ ⟨hword, _⟩ he
    cases hword with
    | prototype _ h _ _ =>
      cases he
      exact hopen h

/-- Behind a name and an opening bracket there is the rest of a call. -/
theorem fits_callEnd (hname : name.isName = true) {ws rest : List Token}
    (hgot : ¬ got.isSymbol ')' = true) (he : ws ++ zs = got :: rest)
    (h : (((operand t).after name).after opening).Fits ws zs) : (callEnd t).Fits ws zs := by
  refine ⟨?_, fun _ _ => trivial⟩
  have hword : Derives t .primary (name :: opening :: ws) := h.word
  generalize hall : name :: opening :: ws = all at hword
  cases hword with
  | number _ => cases hall
  | name _ => cases hall
  | emptyCall _ _ hclose =>
    cases hall
    cases he
    exact absurd hclose hgot
  | call _ _ hargs hclose =>
    cases hall
    exact ⟨_, _, rfl, hargs, hclose⟩
  | bracketed hopen _ _ =>
    obtain ⟨rfl, _⟩ := List.cons.inj hall
    simp [Token.isName_eq_false hopen] at hname

/-- Behind a comma there are more arguments. -/
theorem fits_callEnd_of_comma (hcomma : comma.isSymbol ',' = true) {ws : List Token}
    (h : ((argumentEnd t).after comma).Fits ws zs) : (callEnd t).Fits ws zs := by
  refine ⟨?_, fun _ _ => trivial⟩
  rcases h.word with ⟨close, he, hclose⟩ | ⟨_, us, he, _, hus⟩
  · cases he
    simp [Token.isSymbol, Token.isSymbol_iff.mp hcomma] at hclose
  · cases he
    exact hus

/-- A semicolon in front of a program is no part of an item. -/
theorem fits_program_of_semicolon (ht : t.Legal) {semi : Token} {ws : List Token}
    (hsemi : semi.isSymbol ';' = true) (h : ((whole t .program).after semi).Fits ws zs) :
    (whole t .program).Fits ws zs := by
  obtain ⟨found, hfound⟩ := Phrase.exists_program ht h.word (Nat.lt_succ_self _)
  exact ⟨((Phrase.Program.semicolon_iff hsemi).mp hfound).derives, h.follow⟩

/-- Where there is neither the end of input nor a semicolon, a program begins with an item. -/
theorem fits_items {ws rest : List Token} (hend : got.kind ≠ .endOfInput)
    (hsemi : ¬ got.isSymbol ';' = true) (he : ws ++ zs = got :: rest)
    (h : (whole t .program).Fits ws zs) : (items t).Fits ws zs := by
  refine ⟨⟨h.word, ?_⟩, h.follow⟩
  cases ws with
  | nil =>
    subst he
    exact absurd (h.follow got rfl) hend
  | cons w ws =>
    obtain ⟨rfl, _⟩ := List.cons.inj he
    exact ⟨w, rfl, hsemi⟩

end

end Language
end ExprLang
