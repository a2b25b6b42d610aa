import ExprLang.Proofs.Lexing.Cut
import ExprLang.Proofs.Lexing.Operation
import ExprLang.Proofs.Reading.Moved

/-! Neither a token nor a comment goes on behind a line feed. So a text can be cut there, and what
stands behind it is read as a text of its own, but for the places. -/
namespace ExprLang

namespace Pos

def down (n : Int) (p : Pos) : Pos := { p with line := p.line + n }

private theorem down_after (n : Int) (p : Pos) (c : Char) :
    (p.after c).down n = (p.down n).after c := by
  simp only [after, down]
  split <;> simp [Int.add_right_comm]

/-- Behind a line feed, only the number of lines matters. -/
theorem afterAll_line (cs : List Char) :
    start.afterAll (cs ++ ['\n']) = start.down (cs.count '\n' + 1) := by
  rw [afterAll_eq_behind]
  simp [behind, down, start]

/-- A change of places that lines and columns are counted alike before and after. -/
def Steady (f : Pos → Pos) : Prop := ∀ p c, f (p.after c) = (f p).after c

theorem Steady.afterAll {f : Pos → Pos} (hf : Steady f) (p : Pos) (cs : List Char) :
    f (p.afterAll cs) = (f p).afterAll cs := by
  induction cs generalizing p with
  | nil => rfl
  | cons c cs ih => rw [afterAll_cons, afterAll_cons, ih, hf]

theorem down_steady (n : Int) : Steady (down n) := down_after n

end Pos

private theorem lexedAs_moved (f : Pos → Pos) (lexeme : List Char) (place : Pos) :
    lexedAs lexeme (f place) = movedLexed f (lexedAs lexeme place) := by
  have hnumber (found : Option Double) :
      numberOrFault lexeme (f place) found = movedLexed f (numberOrFault lexeme place found) := by
    cases found with
    | none => rfl
    | some value => cases value <;> rfl
  unfold lexedAs
  split
  · rfl
  split
  · rfl
  split
  · exact hnumber _
  · rfl

namespace Cursor

/-- The tokens and faults of a text are those in front of a line feed and those behind it. -/
theorem lexemes_line (c : Cursor) (more : List Char) :
    (lexemes ⟨c.rest ++ '\n' :: more, c.pos⟩).map (·.1) =
      c.lexemes.map (·.1) ++ (lexemes ⟨more, c.pos.afterAll (c.rest ++ ['\n'])⟩).map (·.1) := by
  have hline : lexemes ⟨'\n' :: more, c.finish⟩ =
      lexemes ⟨more, c.pos.afterAll (c.rest ++ ['\n'])⟩ := by
    have hgap : Trivia more ['\n'] := .blank Text.isBlank_lineFeed .nil
    rw [Pos.afterAll_append]
    exact lexemes_gap hgap c.finish
  have hcut := lexemes_cut c (breaks_lineFeed c.rest more)
  rw [withMore, hline] at hcut
  rw [hcut, List.map_append, List.map_map]
  rfl

/-- The tokens and faults of a text do not depend on where it begins, but for their places. Only the
places of its characters matter, not the one behind it. -/
theorem lexemes_placed {f : Pos → Pos} {cs : List Char} {pos pos' : Pos}
    (hf : ∀ before behind, cs = before ++ behind → behind ≠ [] →
      f (pos.afterAll before) = pos'.afterAll before) :
    (lexemes ⟨cs, pos'⟩).map (·.1) = ((lexemes ⟨cs, pos⟩).map (·.1)).map (movedLexed f) := by
  induction cs using lexeme_induction generalizing pos pos' with
  | trivia gap hgap =>
    rw [lexemes_eq_nil (lexeme?_trivia hgap _), lexemes_eq_nil (lexeme?_trivia hgap _)]
    rfl
  | lexeme gap lexeme rest hgap hlexeme ih =>
    have hcons := lexeme?_eq_lexedAs hgap hlexeme pos'
    rw [← hf gap (lexeme ++ rest) rfl (by simp [hlexeme.ne_nil]), lexedAs_moved] at hcons
    have hrest := @ih (pos.afterAll (gap ++ lexeme)) (pos'.afterAll (gap ++ lexeme))
      fun before behind he hne => by
        rw [← Pos.afterAll_append, ← Pos.afterAll_append]
        exact hf _ behind (by simp [he]) hne
    rw [lexemes_eq_cons hcons, lexemes_eq_cons (lexeme?_eq_lexedAs hgap hlexeme pos),
      List.map_cons, List.map_cons, List.map_cons, hrest]

theorem lexemes_moved {f : Pos → Pos} (hf : Pos.Steady f) (c : Cursor) :
    (lexemes ⟨c.rest, f c.pos⟩).map (·.1) = (c.lexemes.map (·.1)).map (movedLexed f) :=
  lexemes_placed fun before _ _ _ => hf.afterAll c.pos before

end Cursor

/-- What is wrong with a number, wherever it stands. -/
def LexFault.words : LexFault → String
  | .malformed literal => "Invalid number literal " ++ Text.quoted literal
  | .outOfRange => "Number literal out of range"

theorem LexError.message_eq (e : LexError) :
    e.message = e.fault.words ++ " at " ++ e.pos.inWords := by
  obtain ⟨fault, pos⟩ := e
  cases fault <;> rfl

/-- The lines that a text and a line feed behind it take up. -/
def linesOf (text : String) : Int := text.toList.count '\n' + 1

theorem lexemes_joined (a b : String) :
    (Cursor.ofText (a ++ "\n" ++ b) .start).lexemes.map (·.1) =
      (Cursor.ofText a .start).lexemes.map (·.1) ++
        ((Cursor.ofText b .start).lexemes.map (·.1)).map (movedLexed (Pos.down (linesOf a))) := by
  have hlist : (a ++ "\n" ++ b).toList = a.toList ++ '\n' :: b.toList := by
    simp [String.toList_append]
  have hmoved := Cursor.lexemes_moved (Pos.down_steady (linesOf a)) (.ofText b .start)
  rw [Cursor.ofText, hlist]
  refine (Cursor.lexemes_line (.ofText a .start) b.toList).trans (congrArg _ ?_)
  rw [← hmoved, Cursor.ofText, Pos.afterAll_line]
  rfl

/-- A text is read line by line: the tokens of two texts with a line feed between them are those of
the first one, and behind them those of the second one, as many lines further down as the first one
takes up. Only the first fault is reported. -/
theorem tokenize_lines (a b : String) :
    (∀ ts us, tokenize a = .ok ts → tokenize b = .ok us →
      tokenize (a ++ "\n" ++ b) = .ok (ts ++ us.map (Token.moved (Pos.down (linesOf a))))) ∧
    (∀ e, tokenize a = .error e → tokenize (a ++ "\n" ++ b) = .error e) ∧
    ∀ ts e, tokenize a = .ok ts → tokenize b = .error e →
      ∃ e', tokenize (a ++ "\n" ++ b) = .error e' ∧ e'.fault = e.fault ∧
        e'.pos.line = e.pos.line + linesOf a ∧ e'.pos.column = e.pos.column ∧
        e.message = e.fault.words ++ " at " ++ e.pos.inWords ∧
        e'.message = e.fault.words ++ " at " ++ (e.pos.down (linesOf a)).inWords := by
  refine ⟨fun ts us ha hb => ?_, fun e ha => ?_, fun ts e ha hb => ?_⟩
  · rw [tokenize_eq_ok_iff] at ha hb ⊢
    rw [lexemes_joined, ha, hb, List.map_append, List.map_map, List.map_map]
    rfl
  · obtain ⟨ts, rest, ha⟩ := Cursor.collectTokens_eq_error_iff.mp ha
    refine Cursor.collectTokens_eq_error_iff.mpr ⟨ts, rest ++
      ((Cursor.ofText b .start).lexemes.map (·.1)).map (movedLexed (Pos.down (linesOf a))), ?_⟩
    rw [lexemes_joined, ha, List.append_assoc]
    rfl
  · rw [tokenize_eq_ok_iff] at ha
    obtain ⟨us, rest, hb⟩ := Cursor.collectTokens_eq_error_iff.mp hb
    refine ⟨e.moved (Pos.down (linesOf a)), ?_, rfl, rfl, rfl, e.message_eq, LexError.message_eq _⟩
    refine Cursor.collectTokens_eq_error_iff.mpr
      ⟨ts ++ us.map (Token.moved (Pos.down (linesOf a))),
        rest.map (movedLexed (Pos.down (linesOf a))), ?_⟩
    rw [lexemes_joined, ha, hb, List.map_append, List.map_append, List.map_map, List.map_map,
      List.append_assoc]
    rfl

/-- A comment and a word end with their line, and a fault in the first text hides one in the
second. -/
theorem tokenize_lines_commentWordAndFault :
    tokenize ("a # (" ++ "\n" ++ "\tb") = .ok [
      ⟨.identifier "a", ⟨1, 1⟩⟩, ⟨.identifier "b", ⟨2, 2⟩⟩] ∧
    tokenize ("x\n.\r" ++ "\n" ++ "..") = .error ⟨.malformed ".", ⟨2, 1⟩⟩ ∧
    ∃ e, tokenize ("a\nde" ++ "\n" ++ "f .") = .error e ∧
      e.message = "Invalid number literal '.' at line 3, col 3" := by
  have hone : linesOf "a # (" = 1 := by simp [linesOf]
  have htwo : linesOf "a\nde" = 2 := by simp [linesOf]
  refine ⟨?_, ?_, ?_⟩
  · have hjoined := (tokenize_lines "a # (" "\tb").1 [⟨.identifier "a", ⟨1, 1⟩⟩]
      [⟨.identifier "b", ⟨1, 2⟩⟩] (by cbv) (by cbv)
    rw [hone] at hjoined
    exact hjoined
  · exact (tokenize_lines "x\n.\r" "..").2.1 ⟨.malformed ".", ⟨2, 1⟩⟩ (by cbv)
  · obtain ⟨e, he, -, -, -, -, hmessage⟩ := (tokenize_lines "a\nde" "f .").2.2
      [⟨.identifier "a", ⟨1, 1⟩⟩, ⟨.identifier "de", ⟨2, 1⟩⟩] ⟨.malformed ".", ⟨1, 3⟩⟩
      (by cbv) (by cbv)
    rw [htwo] at hmessage
    refine ⟨e, he, hmessage.trans ?_⟩
    decide +kernel

end ExprLang
