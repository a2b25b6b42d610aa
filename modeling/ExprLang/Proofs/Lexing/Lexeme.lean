import ExprLang.Proofs.Lexing.Spelling

/-! The characters that make up a token, as long as they can be, and the white space and comments
that may stand in front of them. -/
namespace ExprLang

/-- White space and comments in front of `rest`. A comment runs up to a line feed or to the end of
the text, but does not take the line feed. -/
inductive Trivia (rest : List Char) : List Char → Prop
  | nil : Trivia rest []
  | blank {c : Char} {cs : List Char} (hblank : Text.isBlank c = true) (h : Trivia rest cs) :
      Trivia rest (c :: cs)
  | comment {body cs : List Char} (hbody : ∀ c ∈ body, c ≠ '\n')
      (hend : ∀ c ∈ (cs ++ rest).head?, c = '\n') (h : Trivia rest cs) :
      Trivia rest ('#' :: (body ++ cs))

/-- The characters of one token in front of `rest`: a letter and all word characters behind it, all
digits and points, or another character alone. -/
inductive Lexeme (rest : List Char) : List Char → Prop
  | word {first : Char} {more : List Char} (hfirst : Text.isLetter first = true)
      (hmore : ∀ c ∈ more, Text.isWordPart c = true)
      (hend : ∀ c ∈ rest.head?, Text.isWordPart c = false) : Lexeme rest (first :: more)
  | number {literal : List Char} (hne : literal ≠ []) (hparts : ∀ c ∈ literal, isNumberPart c = true)
      (hend : ∀ c ∈ rest.head?, isNumberPart c = false) : Lexeme rest literal
  | symbol {c : Char} (hc : Text.isAlone c = true) : Lexeme rest [c]

/-- What is answered for the characters of a token at a place. -/
inductive Reports (place : Pos) : List Char → Lexed → Prop
  | defKeyword : Reports place ['d', 'e', 'f'] (.ok ⟨.defKeyword, place⟩)
  | externKeyword : Reports place ['e', 'x', 't', 'e', 'r', 'n'] (.ok ⟨.externKeyword, place⟩)
  | identifier {first : Char} {more : List Char} (hfirst : Text.isLetter first = true)
      (hdef : first :: more ≠ ['d', 'e', 'f'])
      (hexternal : first :: more ≠ ['e', 'x', 't', 'e', 'r', 'n']) :
      Reports place (first :: more) (.ok ⟨.identifier (String.ofList (first :: more)), place⟩)
  | number {literal : List Char} (hparts : ∀ c ∈ literal, isNumberPart c = true) (value : Double) :
      Reports place literal (.ok ⟨.number value, place⟩)
  | fault {literal : List Char} (hparts : ∀ c ∈ literal, isNumberPart c = true) (fault : LexFault) :
      Reports place literal (.error ⟨fault, place⟩)
  | symbol {c : Char} (hc : Text.isAlone c = true) : Reports place [c] (.ok ⟨.symbol c, place⟩)

/-- A text does not begin with white space or a comment. -/
def Solid (cs : List Char) : Prop := ∀ c ∈ cs.head?, Text.isBlank c = false ∧ c ≠ '#'

private theorem solid_nil : Solid [] := by simp [Solid]

private theorem solid_cons {c : Char} {cs : List Char} :
    Solid (c :: cs) ↔ Text.isBlank c = false ∧ c ≠ '#' := by simp [Solid]

theorem Text.isBlank_lineFeed : isBlank '\n' = true := by decide

theorem Lexeme.ne_nil {cs rest : List Char} (h : Lexeme rest cs) : cs ≠ [] := by
  cases h with
  | word _ _ _ => simp
  | number hne _ _ => exact hne
  | symbol _ => simp

/-- No lexeme begins with white space or like a comment. -/
theorem Lexeme.solid {cs rest : List Char} (h : Lexeme rest cs) (more : List Char) :
    Solid (cs ++ more) := by
  cases h with
  | word hfirst _ _ =>
    rw [List.cons_append, solid_cons]
    refine ⟨Text.isBlank_of_isLetter hfirst, ?_⟩
    rintro rfl
    rw [Text.isLetter_of_lt (by decide)] at hfirst
    cases hfirst
  | number hne hparts _ =>
    obtain ⟨first, literal, rfl⟩ := List.exists_cons_of_ne_nil hne
    rw [List.cons_append, solid_cons]
    exact (Text.of_isNumberPart (hparts first (by simp))).2
  | symbol hc =>
    rw [List.cons_append, solid_cons]
    exact (Text.isAlone_iff.mp hc).2.2

private theorem reports_wordKind {first : Char} (hfirst : Text.isLetter first = true)
    (more : List Char)
    (place : Pos) : Reports place (first :: more) (.ok ⟨wordKind (first :: more), place⟩) := by
  unfold wordKind
  split
  · rename_i hdef
    rw [hdef]
    exact .defKeyword
  split
  · rename_i hexternal
    rw [hexternal]
    exact .externKeyword
  · rename_i hdef hexternal
    exact .identifier hfirst hdef hexternal

private theorem reports_numberToken {literal : List Char}
    (hparts : ∀ c ∈ literal, isNumberPart c = true)
    (place : Pos) : Reports place literal (numberToken literal place) := by
  rw [numberToken]
  generalize (Decimal.ofPositional? literal).map (Decimal.toDouble false) = found
  cases found with
  | none => exact .fault hparts _
  | some value =>
    cases value with
    | infinite _ => exact .fault hparts _
    | _ => exact .number hparts _

/-- What is found for the characters of a token. The first one tells of which kind it is. -/
def lexedAs (lexeme : List Char) (place : Pos) : Lexed :=
  match lexeme with
  | [] => .ok ⟨.endOfInput, place⟩
  | first :: _ =>
    if Text.isLetter first then .ok ⟨wordKind lexeme, place⟩
    else if isNumberPart first then numberToken lexeme place
    else .ok ⟨.symbol first, place⟩

theorem lexedAs_number {literal : List Char} (hne : literal ≠ [])
    (hparts : ∀ c ∈ literal, isNumberPart c = true) (place : Pos) :
    lexedAs literal place = numberToken literal place := by
  obtain ⟨first, rest, rfl⟩ := List.exists_cons_of_ne_nil hne
  have hfirst := hparts first (by simp)
  rw [lexedAs, if_neg (by simp [(Text.of_isNumberPart hfirst).1]), if_pos hfirst]

theorem lexedAs_symbol {c : Char} (hc : Text.isAlone c = true) (place : Pos) :
    lexedAs [c] place = .ok ⟨.symbol c, place⟩ := by
  obtain ⟨hletter, hnumber, _⟩ := Text.isAlone_iff.mp hc
  rw [lexedAs, if_neg (by simp [hletter]), if_neg (by simp [hnumber])]

theorem Lexeme.reports {lexeme rest : List Char} (h : Lexeme rest lexeme) (place : Pos) :
    Reports place lexeme (lexedAs lexeme place) := by
  cases h with
  | @word first more hfirst _ _ =>
    rw [lexedAs, if_pos hfirst]
    exact reports_wordKind hfirst more place
  | number hne hparts _ =>
    rw [lexedAs_number hne hparts]
    exact reports_numberToken hparts place
  | symbol hc =>
    rw [lexedAs_symbol hc]
    exact .symbol hc

namespace Cursor

/-- Inside of a comment, everything up to the line feed is skipped first. -/
theorem skipFrom_comment {body cs : List Char} (hbody : ∀ c ∈ body, c ≠ '\n')
    (hend : ∀ c ∈ cs.head?, c = '\n') (pos : Pos) :
    skipFrom true (body ++ cs) pos = skipFrom false cs (pos.afterAll body) := by
  induction body generalizing pos with
  | nil =>
    cases cs with
    | nil => rfl
    | cons c cs =>
      obtain rfl : c = '\n' := hend c rfl
      simp [skipFrom, Text.isBlank_lineFeed]
  | cons c body ih =>
    have hc : (c != '\n') = true := by simpa using hbody c (by simp)
    rw [List.cons_append, skipFrom, if_pos rfl, hc, ih fun d hd => hbody d (by simp [hd])]
    rfl

private theorem skipFrom_solid {cs : List Char} (h : Solid cs) (pos : Pos) :
    skipFrom false cs pos = ⟨cs, pos⟩ := by
  cases cs with
  | nil => rfl
  | cons c cs =>
    obtain ⟨hblank, hcomment⟩ := solid_cons.mp h
    simp [skipFrom, hblank, hcomment]

/-- Characters that are skipped do not matter for what is skipped behind them. -/
theorem skipTrivia_gap {gap rest : List Char} (hgap : Trivia rest gap) (pos : Pos) :
    skipTrivia ⟨gap ++ rest, pos⟩ = skipTrivia ⟨rest, pos.afterAll gap⟩ := by
  change skipFrom false (gap ++ rest) pos = skipFrom false rest _
  induction hgap generalizing pos with
  | nil => rfl
  | blank hblank _ ih =>
    rw [List.cons_append, skipFrom, if_neg (by simp), if_pos hblank, ih]
    rfl
  | comment hbody hend _ ih =>
    rw [List.cons_append, skipFrom, if_neg (by simp), if_neg (by decide), if_pos rfl,
      List.append_assoc, skipFrom_comment hbody hend, ih, Pos.afterAll_cons, Pos.afterAll_append]

/-- White space and comments are skipped, and nothing else. -/
theorem skipTrivia_append {gap rest : List Char} (hgap : Trivia rest gap) (hrest : Solid rest)
    (pos : Pos) : skipTrivia ⟨gap ++ rest, pos⟩ = ⟨rest, pos.afterAll gap⟩ := by
  rw [skipTrivia_gap hgap, skipTrivia, skipFrom_solid hrest]

private theorem exists_skipFrom (inComment : Bool) (cs : List Char) (pos : Pos) :
    ∃ body gap, (inComment = false → body = []) ∧ (∀ c ∈ body, c ≠ '\n') ∧
      Trivia (skipFrom inComment cs pos).rest gap ∧
      cs = body ++ (gap ++ (skipFrom inComment cs pos).rest) ∧
      (inComment = true → ∀ c ∈ (gap ++ (skipFrom inComment cs pos).rest).head?, c = '\n') ∧
      (skipFrom inComment cs pos).pos = pos.afterAll (body ++ gap) := by
  induction cs generalizing inComment pos with
  | nil => exact ⟨[], [], by simp, by simp, .nil, rfl, by simp [skipFrom], rfl⟩
  | cons c cs ih =>
    cases inComment with
    | true =>
      rw [skipFrom, if_pos rfl]
      obtain ⟨body, gap, hbody, hline, hgap, hcs, hend, hpos⟩ := ih (c != '\n') (pos.after c)
      by_cases hc : c = '\n'
      · -- The line feed ends the comment and is white space.
        subst hc
        obtain rfl := hbody (by simp)
        rw [List.nil_append] at hcs hpos
        exact ⟨[], '\n' :: gap, by simp, by simp, .blank Text.isBlank_lineFeed hgap,
          congrArg _ hcs, by simp, hpos⟩
      · exact ⟨c :: body, gap, by simp, by simpa [hc] using hline, hgap,
          congrArg _ hcs, fun _ => hend (by simpa using hc), hpos⟩
    | false =>
      rw [skipFrom, if_neg (by simp)]
      split
      · rename_i hblank
        obtain ⟨body, gap, hbody, _, hgap, hcs, _, hpos⟩ := ih false (pos.after c)
        obtain rfl := hbody rfl
        rw [List.nil_append] at hcs hpos
        exact ⟨[], c :: gap, by simp, by simp, .blank hblank hgap, congrArg _ hcs, by simp, hpos⟩
      split
      · rename_i hcomment
        subst hcomment
        obtain ⟨body, gap, _, hline, hgap, hcs, hend, hpos⟩ := ih true (pos.after '#')
        refine ⟨[], '#' :: (body ++ gap), by simp, by simp, .comment hline (hend rfl) hgap, ?_,
          by simp, hpos⟩
        rw [List.nil_append, List.cons_append, List.append_assoc, ← hcs]
      · exact ⟨[], [], by simp, by simp, .nil, rfl, by simp, rfl⟩

/-- All that is skipped is white space and comments. -/
theorem exists_skipTrivia (c : Cursor) : ∃ gap, Trivia c.skipTrivia.rest gap ∧
    c.rest = gap ++ c.skipTrivia.rest ∧ c.skipTrivia.pos = c.pos.afterAll gap := by
  obtain ⟨body, gap, hbody, _, hgap, hcs, _, hpos⟩ := exists_skipFrom false c.rest c.pos
  obtain rfl := hbody rfl
  exact ⟨gap, hgap, hcs, hpos⟩

private theorem skipTrivia_solid (c : Cursor) : Solid c.skipTrivia.rest := by
  intro char hchar
  obtain ⟨rest, hrest⟩ := List.head?_eq_some_iff.mp hchar
  exact skipFrom_head hrest

/-- A lexeme is read whole, behind the white space and comments in front of it. -/
theorem lexeme?_eq_lexedAs {gap lexeme rest : List Char} (hgap : Trivia (lexeme ++ rest) gap)
    (hlexeme : Lexeme rest lexeme) (pos : Pos) :
    lexeme? ⟨gap ++ (lexeme ++ rest), pos⟩ =
      some (lexedAs lexeme (pos.afterAll gap), ⟨rest, pos.afterAll (gap ++ lexeme)⟩) := by
  rw [lexeme?, skipTrivia_append hgap (hlexeme.solid rest), Pos.afterAll_append]
  generalize pos.afterAll gap = place
  cases hlexeme with
  | @word first more hfirst hmore hend =>
    have hword : ∀ c ∈ first :: more, Text.isWordPart c = true := by
      simpa [Text.isWordPart, hfirst] using hmore
    have hspan := span_eq hword hend place
    rw [List.cons_append] at hspan ⊢
    simp only [lexedAs, hfirst, if_true, hspan]
  | number hne hparts hend =>
    have hspan := span_eq hparts hend place
    obtain ⟨first, literal, rfl⟩ := List.exists_cons_of_ne_nil hne
    have hfirst := hparts first (by simp)
    have hletter := (Text.of_isNumberPart hfirst).1
    rw [List.cons_append] at hspan ⊢
    simp only [lexedAs, hletter, hfirst, if_true, hspan, Bool.false_eq_true, if_false]
  | symbol hc =>
    obtain ⟨hletter, hnumber, _⟩ := Text.isAlone_iff.mp hc
    simp [lexedAs, hletter, hnumber]

theorem lexeme?_append {gap lexeme rest : List Char} (hgap : Trivia (lexeme ++ rest) gap)
    (hlexeme : Lexeme rest lexeme) (pos : Pos) :
    ∃ found, Reports (pos.afterAll gap) lexeme found ∧
      lexeme? ⟨gap ++ (lexeme ++ rest), pos⟩ =
        some (found, ⟨rest, pos.afterAll (gap ++ lexeme)⟩) :=
  ⟨_, hlexeme.reports _, lexeme?_eq_lexedAs hgap hlexeme pos⟩

/-- If nothing but white space and comments is left, there is no lexeme. -/
theorem lexeme?_trivia {gap : List Char} (hgap : Trivia [] gap) (pos : Pos) :
    lexeme? ⟨gap, pos⟩ = none := by
  have hskip := skipTrivia_append hgap solid_nil pos
  rw [List.append_nil] at hskip
  rw [lexeme?, hskip]

private theorem head?_dropWhile (test : Char → Bool) (cs : List Char) :
    ∀ c ∈ (cs.dropWhile test).head?, test c = false := by
  intro c hc
  have h := List.head?_dropWhile_not test cs
  rwa [Option.mem_def.mp hc] at h

/-- What is left is white space and comments, or begins with a lexeme behind them. -/
theorem trivia_or_lexeme (c : Cursor) : Trivia [] c.rest ∨
    ∃ gap lexeme rest, c.rest = gap ++ (lexeme ++ rest) ∧ Trivia (lexeme ++ rest) gap ∧
      Lexeme rest lexeme := by
  obtain ⟨gap, hgap, hrest, _⟩ := c.exists_skipTrivia
  have hsolid := c.skipTrivia_solid
  generalize c.skipTrivia.rest = left at hgap hrest hsolid
  cases left with
  | nil =>
    rw [hrest, List.append_nil]
    exact .inl hgap
  | cons first left =>
    obtain ⟨hblank, hcomment⟩ := solid_cons.mp hsolid
    have hsplit (test : Char → Bool) :
        first :: left = first :: left.takeWhile test ++ left.dropWhile test := by
      rw [List.cons_append, List.takeWhile_append_dropWhile]
    have hall (test : Char → Bool) : ∀ c ∈ left.takeWhile test, test c = true :=
      List.all_eq_true.mp List.all_takeWhile
    right
    by_cases hletter : Text.isLetter first = true
    · have hword := Lexeme.word hletter (hall _) (head?_dropWhile Text.isWordPart left)
      rw [hsplit Text.isWordPart] at hrest hgap
      exact ⟨_, _, _, hrest, hgap, hword⟩
    by_cases hnumber : isNumberPart first = true
    · have hliteral : Lexeme (left.dropWhile isNumberPart) (first :: left.takeWhile isNumberPart) :=
        .number (by simp) (by simpa [hnumber] using hall isNumberPart)
          (head?_dropWhile isNumberPart left)
      rw [hsplit isNumberPart] at hrest hgap
      exact ⟨_, _, _, hrest, hgap, hliteral⟩
    · have halone : Text.isAlone first = true :=
        Text.isAlone_iff.mpr ⟨by simpa using hletter, by simpa using hnumber, hblank, hcomment⟩
      have hsymbol : Lexeme left [first] := .symbol halone
      exact ⟨_, _, _, hrest, hgap, hsymbol⟩

end Cursor

/-- Induction over the lexemes of a text, from the last one to the first one. -/
@[elab_as_elim]
theorem lexeme_induction {motive : List Char → Prop} (trivia : ∀ gap, Trivia [] gap → motive gap)
    (lexeme : ∀ gap lexeme rest, Trivia (lexeme ++ rest) gap → Lexeme rest lexeme → motive rest →
      motive (gap ++ (lexeme ++ rest))) (cs : List Char) : motive cs := by
  induction hn : cs.length using Nat.strongRecOn generalizing cs with
  | ind n ih =>
    rcases Cursor.trivia_or_lexeme ⟨cs, .start⟩ with hgap | ⟨gap, chars, rest, hcs, hgap, hlexeme⟩
    · exact trivia cs hgap
    · have hlength := congrArg List.length hcs
      have hpos := List.length_pos_iff.mpr hlexeme.ne_nil
      simp only [List.length_append] at hlength
      obtain rfl : cs = _ := hcs
      exact lexeme gap chars rest hgap hlexeme (ih rest.length (by omega) rest rfl)

end ExprLang
