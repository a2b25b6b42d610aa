import ExprLang.Proofs.Lexing.Lines
import ExprLang.Proofs.Lexing.Spacing

/-! A line with white space at its ends. What is found in it is found without the white space as
well, but at other places. -/
namespace ExprLang

theorem Spacing.of_blank {gap : List Char} (h : ∀ c ∈ gap, Text.isBlank c = true) :
    Spacing gap := by
  induction gap with
  | nil => exact .nil
  | cons c gap ih =>
    obtain ⟨hc, hgap⟩ := List.forall_mem_cons.mp h
    exact .blank hc (ih hgap)

/-- Within a line, only the columns are counted. -/
theorem Pos.afterAll_of_line {cs : List Char} (h : '\n' ∉ cs) (p : Pos) :
    p.afterAll cs = ⟨p.line, p.column + cs.length⟩ := by
  rw [afterAll_eq_behind]
  simp [behind, List.count_eq_zero.mpr h, h]

variable {gap rest more : List Char}

private theorem Trivia.append_line (h : Trivia [] gap) (hmore : ∀ c ∈ more, Text.isBlank c = true)
    (hline : '\n' ∉ more) : Trivia [] (gap ++ more) := by
  induction h with
  | nil => exact (Spacing.of_blank hmore).trivia []
  | blank hblank _ ih => exact .blank hblank ih
  | @comment body cs hbody hend _ ih =>
    cases cs with
    | nil =>
      have hlong : Trivia [] ('#' :: ((body ++ more) ++ [])) :=
        .comment (fun c hc => ?_) (by simp) .nil
      · simpa using hlong
      · rcases List.mem_append.mp hc with hc | hc
        · exact hbody c hc
        · exact fun he => hline (he ▸ hc)
    | cons first cs =>
      rw [List.cons_append, List.append_assoc]
      exact .comment hbody hend ih

private theorem Trivia.before (h : Trivia rest gap) (hne : rest ≠ []) (more : List Char) :
    Trivia (rest ++ more) gap := by
  induction h with
  | nil => exact .nil
  | blank hblank _ ih => exact .blank hblank ih
  | comment hbody hend _ ih =>
    refine .comment hbody (fun c hc => hend c ?_) ih
    rwa [← List.append_assoc, List.head?_append, Option.or_of_isSome (by simp [hne])] at hc

namespace Cursor

/-- White space behind a text without a line feed changes nothing that is found. -/
theorem lexemes_withBlank (hmore : ∀ c ∈ more, Text.isBlank c = true) (hline : '\n' ∉ more)
    (c : Cursor) : (c.withMore more).lexemes.map (·.1) = c.lexemes.map (·.1) := by
  have hparts : Parts more := by
    have hempty : Parts (more ++ []) := (Spacing.of_blank hmore).parts fun _ => parts_nil
    rwa [List.append_nil] at hempty
  obtain ⟨cs, pos⟩ := c
  rw [withMore]
  induction cs using lexeme_induction generalizing pos with
  | trivia gap hgap =>
    rw [lexemes_eq_nil (lexeme?_trivia hgap pos),
      lexemes_eq_nil (lexeme?_trivia (hgap.append_line hmore hline) pos)]
  | lexeme gap lexeme rest hgap hlexeme ih =>
    have hgap' := hgap.before (by simp [hlexeme.ne_nil]) more
    rw [List.append_assoc] at hgap'
    have hcons := lexeme?_eq_lexedAs hgap' (hlexeme.cut hparts) pos
    rw [lexemes_eq_cons (lexeme?_eq_lexedAs hgap hlexeme pos), List.map_cons, ← ih]
    simp only [List.append_assoc]
    rw [lexemes_eq_cons hcons, List.map_cons]

end Cursor
end ExprLang
