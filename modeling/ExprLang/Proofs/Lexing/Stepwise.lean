import ExprLang.Proofs.Lexing.Lines

/-! Tokens read one character at a time. To read a character at the end of a text fails, so each
character that is read has to be there. -/
namespace ExprLang

namespace Cursor

variable {c after : Cursor}

private theorem next?_length_lt {char : Char} (h : c.next? = some (char, after)) :
    after.rest.length < c.rest.length := by
  obtain ⟨cs, pos⟩ := c
  cases cs with
  | nil => cases h
  | cons first rest =>
    cases h
    exact Nat.lt_succ_self _

/-- Read on as long as something is left and a test of the next character holds. -/
def spanBySteps (goesOn : Option Char → Bool) (c : Cursor) : Option (List Char × Cursor) :=
  if c.atEnd || !goesOn c.peek? then some ([], c)
  else
    match _h : c.next? with
    | none => none
    | some (char, after) =>
      (spanBySteps goesOn after).map fun found => (char :: found.1, found.2)
termination_by c.rest.length
decreasing_by exact next?_length_lt _h

private theorem spanBySteps_eq {goesOn : Option Char → Bool} {test : Char → Bool}
    (htest : ∀ char, goesOn (some char) = test char) (c : Cursor) :
    c.spanBySteps goesOn = some (c.span test) := by
  obtain ⟨cs, pos⟩ := c
  induction cs generalizing pos with
  | nil =>
    rw [spanBySteps]
    rfl
  | cons char rest ih =>
    rw [spanBySteps]
    by_cases hchar : test char = true
    · simp [atEnd, peek?, next?, htest, hchar, ih, span, Pos.afterAll]
    · simp [atEnd, peek?, htest, hchar, span]

private theorem comment_eq (c : Cursor) :
    c.spanBySteps (· != some '\n') = some (c.span (· != '\n')) := spanBySteps_eq (fun _ => rfl) c

/-- Skip white space and comments. A comment is read up to the end of its line. -/
def skipBySteps (c : Cursor) : Option Cursor :=
  if c.atEnd then some c
  else if c.peek?.any Text.isBlank then
    match _h : c.next? with
    | none => none
    | some (_, after) => skipBySteps after
  else if _hcomment : c.peek? = some '#' then
    match _h : c.spanBySteps (· != some '\n') with
    | none => none
    | some (_, after) => skipBySteps after
  else some c
termination_by c.rest.length
decreasing_by
  · exact next?_length_lt _h
  · obtain ⟨rest, hrest⟩ := List.head?_eq_some_iff.mp _hcomment
    rw [comment_eq] at _h
    cases _h
    exact span_length_lt hrest (by decide)

private theorem skipTrivia_comment (rest : List Char) (pos : Pos) :
    skipTrivia ⟨'#' :: rest, pos⟩ = (span (· != '\n') ⟨'#' :: rest, pos⟩).2.skipTrivia := by
  have hbody : ∀ c ∈ rest.takeWhile (· != '\n'), c ≠ '\n' := fun c hc => by
    simpa using List.all_eq_true.mp List.all_takeWhile c hc
  have hend : ∀ c ∈ (rest.dropWhile (· != '\n')).head?, c = '\n' := fun c hc => by
    have hstop := List.head?_dropWhile_not (· != '\n') rest
    rw [Option.mem_def.mp hc] at hstop
    simpa using hstop
  have hskip := skipFrom_comment hbody hend (pos.after '#')
  rw [List.takeWhile_append_dropWhile] at hskip
  have hcomment : skipTrivia ⟨'#' :: rest, pos⟩ = skipFrom true rest (pos.after '#') := rfl
  rw [hcomment, hskip]
  simp [skipTrivia, span]

private theorem skipBySteps_eq (c : Cursor) : c.skipBySteps = some c.skipTrivia := by
  induction h : c.rest.length using Nat.strongRecOn generalizing c with
  | ind n ih =>
    obtain ⟨cs, pos⟩ := c
    subst h
    cases cs with
    | nil =>
      rw [skipBySteps]
      rfl
    | cons char rest =>
      rw [skipBySteps, if_neg (by simp [atEnd])]
      by_cases hblank : Text.isBlank char = true
      · rw [if_pos (by simpa [peek?] using hblank), skipTrivia_blank hblank]
        exact ih _ (Nat.lt_succ_self _) _ rfl
      rw [if_neg (by simpa [peek?] using hblank)]
      by_cases hcomment : char = '#'
      · subst hcomment
        rw [dif_pos (by rfl), skipTrivia_comment]
        split <;> rename_i hspan <;> cases hspan.symm.trans (comment_eq _)
        exact ih _ (span_length_lt rfl (by decide)) _ rfl
      · rw [dif_neg (by simpa [peek?] using hcomment),
          skipTrivia_of_head (by simpa using hblank) hcomment]

/-- One token on demand. A character is asked for its kind before it is known to be there. -/
def tokenBySteps (c : Cursor) : Option (Lexed × Cursor) := do
  let c ← c.skipBySteps
  if c.atEnd then return (.ok ⟨.endOfInput, c.pos⟩, c)
  else if c.peek?.any Text.isLetter then
    let (word, after) ← c.spanBySteps (·.any Text.isWordPart)
    return (.ok ⟨wordKind word, c.pos⟩, after)
  else if c.peek?.all isNumberPart then
    let (literal, after) ← c.spanBySteps (·.all isNumberPart)
    return (numberToken literal c.pos, after)
  else
    let (char, after) ← c.next?
    return (.ok ⟨.symbol char, c.pos⟩, after)

/-- A token never fails to be read. -/
theorem tokenBySteps_eq (c : Cursor) : c.tokenBySteps = some c.token := by
  obtain ⟨gap, _, hrest, hpos⟩ := c.exists_skipTrivia
  rw [tokenBySteps, skipBySteps_eq, token, lexeme?]
  generalize c.skipTrivia = d at hrest hpos
  obtain ⟨cs, pos⟩ := d
  obtain rfl : pos = c.pos.afterAll gap := hpos
  cases cs with
  | nil =>
    have hfinish : c.finish = c.pos.afterAll gap := by rw [finish, hrest, List.append_nil]
    simp [atEnd, toEnd, hfinish]
  | cons char rest =>
    have hword : spanBySteps (·.any Text.isWordPart) ⟨char :: rest, c.pos.afterAll gap⟩ = _ :=
      spanBySteps_eq (fun _ => rfl) _
    have hliteral : spanBySteps (·.all isNumberPart) ⟨char :: rest, c.pos.afterAll gap⟩ = _ :=
      spanBySteps_eq (fun _ => rfl) _
    by_cases hletter : Text.isLetter char = true
    · simp [atEnd, peek?, hletter, hword]
    by_cases hnumber : isNumberPart char = true
    · simp [atEnd, peek?, hletter, hnumber, hliteral]
    · simp [atEnd, peek?, next?, hletter, hnumber]

/-- The end of input in the place of a token. -/
def isEnd : Lexed → Bool
  | .ok token => token.kind == .endOfInput
  | .error _ => false

private theorem of_lexeme? {found : Lexed} (h : c.lexeme? = some (found, after)) :
    isEnd found = false ∧ after.finish = c.finish := by
  obtain ⟨cs, pos⟩ := c
  rcases trivia_or_lexeme ⟨cs, pos⟩ with hgap | ⟨gap, lexeme, rest, hcs, hgap, hlexeme⟩
  · cases (lexeme?_trivia hgap pos).symm.trans h
  · obtain rfl : cs = _ := hcs
    cases (lexeme?_eq_lexedAs hgap hlexeme pos).symm.trans h
    have hreports := hlexeme.reports (pos.afterAll gap)
    generalize lexedAs lexeme (pos.afterAll gap) = found at hreports
    refine ⟨by cases hreports <;> rfl, ?_⟩
    rw [finish, finish, ← Pos.afterAll_append, List.append_assoc]

/-- All tokens and faults that are left, and the cursor behind them. The end of input shows that
there are no more. -/
def foundBySteps (c : Cursor) : Option (List Lexed × Cursor) :=
  match _h : c.tokenBySteps with
  | none => none
  | some (found, after) =>
    if _hend : isEnd found = true then some ([], after)
    else (foundBySteps after).map fun rest => (found :: rest.1, rest.2)
termination_by c.rest.length
decreasing_by
  rw [tokenBySteps_eq, token] at _h
  split at _h
  · cases _h
    exact absurd rfl _hend
  · rename_i hsome
    cases _h
    exact lexeme?_length_lt hsome

/-- Reading one token after the other never fails. -/
theorem foundBySteps_eq (c : Cursor) : c.foundBySteps = some (c.lexemes.map (·.1), c.toEnd) := by
  induction c using lexemes.induct with
  | case1 c hnone =>
    have htoken : c.tokenBySteps = some (.ok ⟨.endOfInput, c.finish⟩, c.toEnd) := by
      rw [tokenBySteps_eq, token, hnone]
    rw [foundBySteps, lexemes_eq_nil hnone]
    split <;> rename_i htokens <;> cases htoken.symm.trans htokens
    rfl
  | case2 c found after hsome ih =>
    have htoken : c.tokenBySteps = some (found, after) := by rw [tokenBySteps_eq, token, hsome]
    rw [foundBySteps, lexemes_eq_cons hsome]
    split <;> rename_i htokens <;> cases htoken.symm.trans htokens
    obtain ⟨hend, hfinish⟩ := of_lexeme? hsome
    rw [dif_neg (by simp [hend]), ih, toEnd, hfinish]
    rfl

/-- The tokens up to the first fault are those of the list of all that is found. -/
theorem collectTokens_eq (found : List (Lexed × Cursor)) (stop : Cursor) :
    (collectTokens found stop).1 = (found.map (·.1)).mapM id := by
  induction found with
  | nil => rfl
  | cons first rest ih =>
    obtain ⟨lexed, after⟩ := first
    cases lexed with
    | error e => rfl
    | ok t =>
      rw [collectTokens, List.map_cons, List.mapM_cons, ← ih]
      generalize collectTokens rest stop = r
      obtain ⟨tokens | e, behind⟩ := r <;> rfl

end Cursor

/-- All tokens of a text, or nothing if a character was read behind its end. -/
def tokenizeBySteps (text : String) : Option (Except LexError (List Token)) :=
  (Cursor.ofText text .start).foundBySteps.map fun found => found.1.mapM id

theorem tokenizeBySteps_eq (text : String) : tokenizeBySteps text = some (tokenize text) := by
  rw [tokenizeBySteps, Cursor.foundBySteps_eq, tokenize, Cursor.tokens, Cursor.collectTokens_eq]
  rfl

end ExprLang
