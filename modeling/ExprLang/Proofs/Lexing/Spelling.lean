import ExprLang.Proofs.Lexing.Lexable
import ExprLang.Proofs.Number.ReadBack
import ExprLang.Proofs.Text.Classes
import ExprLang.Text.Joined

/-! Characters that are read as given tokens, one token after the other. -/
namespace ExprLang

/-- From any place, characters are read as tokens of the given kinds. -/
def Scans (cs : List Char) (kinds : List TokenKind) : Prop :=
  ∀ pos, ∃ ts : List Token,
    (Cursor.lexemes ⟨cs, pos⟩).map (·.1) = ts.map Except.ok ∧ ts.map Token.kind = kinds

/-- A token in front of these characters ends where they begin. -/
def Parts (cs : List Char) : Prop :=
  ∀ c ∈ cs.head?, Text.isWordPart c = false ∧ isNumberPart c = false

theorem parts_nil : Parts [] := by simp [Parts]

theorem parts_cons {c : Char} {cs : List Char} (hword : Text.isWordPart c = false)
    (hnumber : isNumberPart c = false) : Parts (c :: cs) := by
  simp [Parts, hword, hnumber]

namespace Cursor

theorem skipTrivia_of_head {c : Char} {cs : List Char} {pos : Pos} (hblank : Text.isBlank c = false)
    (hcomment : c ≠ '#') : skipTrivia ⟨c :: cs, pos⟩ = ⟨c :: cs, pos⟩ := by
  simp [skipTrivia, skipFrom, hblank, hcomment]

theorem skipTrivia_blank {c : Char} {cs : List Char} {pos : Pos} (hblank : Text.isBlank c = true) :
    skipTrivia ⟨c :: cs, pos⟩ = skipTrivia ⟨cs, pos.after c⟩ := by
  simp [skipTrivia, skipFrom, hblank]

theorem lexemes_of_lexeme?_eq {c d : Cursor} (h : c.lexeme? = d.lexeme?) :
    c.lexemes = d.lexemes := by
  cases hd : d.lexeme? with
  | none => rw [lexemes_eq_nil hd, lexemes_eq_nil (h.trans hd)]
  | some found => rw [lexemes_eq_cons hd, lexemes_eq_cons (h.trans hd)]

/-- Reading on takes all characters that satisfy the test, up to the first that does not. -/
theorem span_eq {test : Char → Bool} {cs rest : List Char} (h : ∀ c ∈ cs, test c = true)
    (hstop : ∀ c ∈ rest.head?, test c = false) (pos : Pos) :
    span test ⟨cs ++ rest, pos⟩ = (cs, ⟨rest, pos.afterAll cs⟩) := by
  have hnone : rest.takeWhile test = [] ∧ rest.dropWhile test = rest := by
    cases rest with
    | nil => exact ⟨rfl, rfl⟩
    | cons c rest =>
      have hc := hstop c rfl
      exact ⟨List.takeWhile_cons_of_neg (by simp [hc]), List.dropWhile_cons_of_neg (by simp [hc])⟩
  simp [span, List.takeWhile_append_of_pos h, List.dropWhile_append_of_pos h, hnone]

end Cursor

namespace Scans
variable {cs rest : List Char} {kinds : List TokenKind}

theorem nil : Scans [] [] := by
  intro pos
  exact ⟨[], by rw [Cursor.lexemes_eq_nil rfl]; rfl, rfl⟩

/-- White space is passed over. -/
theorem blank {c : Char} (hblank : Text.isBlank c = true) (h : Scans rest kinds) :
    Scans (c :: rest) kinds := by
  intro pos
  have he : Cursor.lexeme? ⟨c :: rest, pos⟩ = Cursor.lexeme? ⟨rest, pos.after c⟩ := by
    rw [Cursor.lexeme?, Cursor.lexeme?, Cursor.skipTrivia_blank hblank]
  rw [Cursor.lexemes_of_lexeme?_eq he]
  exact h _

private theorem token {kind : TokenKind} (h : Scans rest kinds)
    (hfirst : ∀ pos, ∃ pos', Cursor.lexeme? ⟨cs, pos⟩ = some (.ok ⟨kind, pos⟩, ⟨rest, pos'⟩)) :
    Scans cs (kind :: kinds) := by
  intro pos
  obtain ⟨pos', hfirst⟩ := hfirst pos
  obtain ⟨ts, hts, hkinds⟩ := h pos'
  refine ⟨⟨kind, pos⟩ :: ts, ?_, by rw [List.map_cons, hkinds]⟩
  rw [Cursor.lexemes_eq_cons hfirst, List.map_cons, hts, List.map_cons]

/-- A character that is a token of its own. -/
theorem symbol {c : Char} (hc : Text.isAlone c = true) (h : Scans rest kinds) :
    Scans (c :: rest) (.symbol c :: kinds) := by
  obtain ⟨hletter, hnumber, hblank, hcomment⟩ := Text.isAlone_iff.mp hc
  refine h.token fun pos => ⟨pos.after c, ?_⟩
  simp [Cursor.lexeme?, Cursor.skipTrivia_of_head hblank hcomment, hletter, hnumber]

/-- A word, up to a character that is no part of it. -/
theorem word {first : Char} {more : List Char} (hfirst : Text.isLetter first = true)
    (hmore : ∀ c ∈ more, Text.isWordPart c = true) (hstop : Parts rest) (h : Scans rest kinds) :
    Scans (first :: more ++ rest) (wordKind (first :: more) :: kinds) := by
  have hword : ∀ c ∈ first :: more, Text.isWordPart c = true := by
    simpa [Text.isWordPart, hfirst] using hmore
  have hcomment : first ≠ '#' := by
    rintro rfl
    rw [Text.isLetter_of_lt (by decide)] at hfirst
    cases hfirst
  refine h.token fun pos => ⟨pos.afterAll (first :: more), ?_⟩
  have hspan := Cursor.span_eq hword (fun c hc => (hstop c hc).1) pos
  rw [List.cons_append] at hspan ⊢
  rw [Cursor.lexeme?, Cursor.skipTrivia_of_head (Text.isBlank_of_isLetter hfirst) hcomment]
  simp only [hfirst, if_true, hspan]

theorem identifier {name : String} (hname : Text.isIdentifier name = true) (hstop : Parts rest)
    (h : Scans rest kinds) : Scans (name.toList ++ rest) (.identifier name :: kinds) := by
  obtain ⟨first, more, hlist, hfirst, hmore, hdef, hextern⟩ := Text.isIdentifier_iff.mp hname
  have hkind : wordKind (first :: more) = .identifier name := by
    have hdef' : ¬ first :: more = ['d', 'e', 'f'] :=
      fun he => hdef (String.toList_injective (hlist.trans he))
    have hextern' : ¬ first :: more = ['e', 'x', 't', 'e', 'r', 'n'] :=
      fun he => hextern (String.toList_injective (hlist.trans he))
    rw [wordKind, if_neg hdef', if_neg hextern', ← hlist, String.ofList_toList]
  rw [hlist, ← hkind]
  exact h.word hfirst hmore hstop

/-- A number without a sign, up to a character that is neither a digit nor a point. -/
theorem number (index : Fin magnitudeCount) (hstop : Parts rest) (h : Scans rest kinds) :
    Scans (Double.plainMagnitudeText index ++ rest) (.number (.finite false index) :: kinds) := by
  obtain ⟨hne, hparts⟩ := Double.plainMagnitudeText_parts index
  have htoken := numberToken_plainMagnitudeText index
  generalize Double.plainMagnitudeText index = literal at hne hparts htoken ⊢
  cases literal with
  | nil => exact absurd rfl hne
  | cons first more =>
    have hfirst := hparts first (by simp)
    obtain ⟨hletter, hblank, hcomment⟩ := Text.of_isNumberPart hfirst
    refine h.token fun pos => ⟨pos.afterAll (first :: more), ?_⟩
    have hspan := Cursor.span_eq hparts (fun c hc => (hstop c hc).2) pos
    rw [List.cons_append] at hspan ⊢
    rw [Cursor.lexeme?, Cursor.skipTrivia_of_head hblank hcomment]
    simp only [hletter, hfirst, if_true, hspan, htoken, Bool.false_eq_true, if_false]

/-- A whole text is read as tokens of the given kinds. -/
theorem tokenize {text : String} (h : Scans text.toList kinds) :
    ∃ ts, ExprLang.tokenize text = .ok ts ∧ ts.map Token.kind = kinds := by
  obtain ⟨ts, hts, hkinds⟩ := h .start
  exact ⟨ts, tokenize_eq_ok_iff.mpr hts, hkinds⟩

end Scans

/-- Whatever stands behind it and lets its last token end, a text is read as tokens of the given
kinds. -/
def Spells (text : String) (kinds : List TokenKind) : Prop :=
  ∀ rest more, Parts rest → Scans rest more → Scans (text.toList ++ rest) (kinds ++ more)

theorem spells_extern : Spells "extern" [.externKeyword] := by
  intro rest more hstop hrest
  have hkind : wordKind ['e', 'x', 't', 'e', 'r', 'n'] = .externKeyword := rfl
  change Scans ('e' :: ['x', 't', 'e', 'r', 'n'] ++ rest) (.externKeyword :: more)
  rw [← hkind]
  exact hrest.word (by decide +kernel) (List.all_eq_true.mp (by decide +kernel)) hstop

theorem spells_def : Spells "def" [.defKeyword] := by
  intro rest more hstop hrest
  have hkind : wordKind ['d', 'e', 'f'] = .defKeyword := rfl
  change Scans ('d' :: ['e', 'f'] ++ rest) (.defKeyword :: more)
  rw [← hkind]
  exact hrest.word (by decide +kernel) (List.all_eq_true.mp (by decide +kernel)) hstop

namespace Spells

/-- Texts with a blank character between them are read one after the other. -/
theorem joined {α : Type} {text : α → String} {kinds : α → List TokenKind} {separator : String}
    {c : Char} (hseparator : separator.toList = [c]) (hblank : Text.isBlank c = true)
    (hparts : ∀ rest, Parts (c :: rest)) {xs : List α} (h : ∀ x ∈ xs, Spells (text x) (kinds x)) :
    Spells (Text.joined separator (xs.map text)) (xs.flatMap kinds) := by
  intro rest more hstop hrest
  induction xs with
  | nil => exact hrest
  | cons x xs ih =>
    cases xs with
    | nil => simpa [Text.joined] using h x (by simp) rest more hstop hrest
    | cons y ys =>
      have hys := (ih fun z hz => h z (List.mem_cons_of_mem x hz)).blank hblank
      have hx := h x (by simp) _ _ (hparts _) hys
      simpa [Text.joined, hseparator] using hx

theorem tokenize {text : String} {kinds : List TokenKind} (h : Spells text kinds) :
    ∃ ts, ExprLang.tokenize text = .ok ts ∧ ts.map Token.kind = kinds := by
  have hscans := h [] [] parts_nil .nil
  rw [List.append_nil, List.append_nil] at hscans
  exact hscans.tokenize

end Spells
end ExprLang
