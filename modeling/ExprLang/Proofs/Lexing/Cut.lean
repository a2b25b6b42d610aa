import ExprLang.Proofs.Lexing.Lexeme

/-! A text may be cut in front of a character with which its last token and its last comment do not
go on. What is found in the two parts is what is found in the text. -/
namespace ExprLang

/-- A comment is open at the end of a text if there is no line feed behind its mark. -/
def OpenComment (cs : List Char) : Prop :=
  ∃ before body, cs = before ++ '#' :: body ∧ '\n' ∉ body

/-- Neither the last token of a text nor its last comment goes on with `more`. -/
structure Breaks (cs more : List Char) : Prop where
  parts : Parts more
  closed : OpenComment cs → ∀ c ∈ more.head?, c = '\n'

variable {cs gap lexeme rest more : List Char}

private theorem OpenComment.behind (before : List Char) (h : OpenComment cs) :
    OpenComment (before ++ cs) := by
  obtain ⟨others, body, rfl, hbody⟩ := h
  exact ⟨before ++ others, body, by simp, hbody⟩

theorem OpenComment.mark_mem (h : OpenComment cs) : '#' ∈ cs := by
  obtain ⟨before, body, rfl, _⟩ := h
  simp

/-- A line feed closes the comments in front of it. -/
theorem OpenComment.of_line {line : List Char} (h : OpenComment (line ++ '\n' :: cs)) :
    OpenComment cs := by
  obtain ⟨others, body, htext, hbody⟩ := h
  rcases List.append_eq_append_iff.mp htext with ⟨between, _, hrest⟩ | ⟨between, _, hrest⟩
  · cases between with
    | nil => simp at hrest
    | cons _ between => exact ⟨between, body, (List.cons.inj hrest).2, hbody⟩
  · cases between with
    | nil => simp at hrest
    | cons _ between => exact absurd (by simp [(List.cons.inj hrest).2]) hbody

private theorem Breaks.behind {before : List Char} (h : Breaks (before ++ cs) more) :
    Breaks cs more :=
  ⟨h.parts, fun hopen => h.closed (hopen.behind before)⟩

theorem breaks_lineFeed (cs more : List Char) : Breaks cs ('\n' :: more) where
  parts := parts_cons (by decide) (by decide)
  closed _ c hc := by
    cases hc
    rfl

/-- Trivia at the end of a text is trivia in front of what does not go on with it. -/
theorem Trivia.cut (h : Trivia rest gap) (hbreaks : Breaks (gap ++ rest) more) :
    Trivia (rest ++ more) gap := by
  induction h with
  | nil => exact .nil
  | @blank c _ hblank _ ih => exact .blank hblank (ih (@Breaks.behind _ _ [c] hbreaks))
  | @comment body cs hbody hend _ ih =>
    refine .comment hbody (fun c hc => ?_) (ih ?_)
    · rw [← List.append_assoc] at hc
      cases hlast : cs ++ rest with
      | nil =>
        -- The comment is the last one, and it is open.
        rw [hlast] at hc
        refine hbreaks.closed ⟨[], body, ?_, fun hmem => hbody _ hmem rfl⟩ c hc
        simp [List.append_assoc, hlast]
      | cons first others =>
        rw [hlast] at hend hc
        exact hend c hc
    · refine @Breaks.behind _ _ ('#' :: body) ?_
      simpa [List.append_assoc] using hbreaks

/-- No lexeme goes on with characters that do not belong to it. -/
theorem Lexeme.cut (h : Lexeme rest lexeme) (hmore : Parts more) :
    Lexeme (rest ++ more) lexeme := by
  have hhead {test : Char → Bool} (hparts : ∀ c ∈ more.head?, test c = false)
      (hend : ∀ c ∈ rest.head?, test c = false) : ∀ c ∈ (rest ++ more).head?, test c = false := by
    cases rest with
    | nil => exact hparts
    | cons first others => exact hend
  cases h with
  | word hfirst hword hend => exact .word hfirst hword (hhead (fun c hc => (hmore c hc).1) hend)
  | number hne hparts hend => exact .number hne hparts (hhead (fun c hc => (hmore c hc).2) hend)
  | symbol hc => exact .symbol hc

namespace Cursor

/-- Characters that are skipped do not matter for what is found behind them. -/
theorem lexemes_gap (hgap : Trivia rest gap) (pos : Pos) :
    lexemes ⟨gap ++ rest, pos⟩ = lexemes ⟨rest, pos.afterAll gap⟩ := by
  apply lexemes_of_lexeme?_eq
  rw [lexeme?, skipTrivia_gap hgap, ← lexeme?]

def withMore (more : List Char) (c : Cursor) : Cursor := ⟨c.rest ++ more, c.pos⟩

/-- The tokens and faults of a text are those of its two parts. -/
theorem lexemes_cut (c : Cursor) (hbreaks : Breaks c.rest more) :
    (c.withMore more).lexemes =
      c.lexemes.map (fun found => (found.1, found.2.withMore more)) ++ lexemes ⟨more, c.finish⟩ := by
  obtain ⟨cs, pos⟩ := c
  induction cs using lexeme_induction generalizing pos with
  | trivia gap hgap =>
    have hgap' : Trivia more gap := hgap.cut (by rwa [List.append_nil])
    rw [lexemes_eq_nil (lexeme?_trivia hgap pos), withMore, lexemes_gap hgap']
    rfl
  | lexeme gap lexeme rest hgap hlexeme ih =>
    rw [← List.append_assoc] at hbreaks
    have hgap' := hgap.cut (by rwa [← List.append_assoc])
    rw [List.append_assoc] at hgap'
    have hcons := lexeme?_eq_lexedAs hgap' (hlexeme.cut hbreaks.parts) pos
    have hfinish : finish ⟨gap ++ (lexeme ++ rest), pos⟩ =
        finish ⟨rest, pos.afterAll (gap ++ lexeme)⟩ := by
      rw [finish, finish, ← List.append_assoc, Pos.afterAll_append]
    rw [lexemes_eq_cons (lexeme?_eq_lexedAs hgap hlexeme pos), List.map_cons, List.cons_append,
      hfinish, ← ih _ hbreaks.behind]
    simp only [withMore, List.append_assoc]
    exact lexemes_eq_cons hcons

end Cursor
end ExprLang
