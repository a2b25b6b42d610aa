import ExprLang.Proofs.Number.Rounding
import ExprLang.Token.Lexer

/-! What the tokens of a text can be. -/
namespace ExprLang

/-- A word that is no keyword. -/
def Text.isIdentifier (name : String) : Bool :=
  match name.toList with
  | [] => false
  | first :: rest =>
    Text.isLetter first && rest.all Text.isWordPart && name != "def" && name != "extern"

def Text.isAlone (c : Char) : Bool :=
  !Text.isLetter c && !isNumberPart c && !Text.isBlank c && c != '#'

/-- A token may be found in a text. -/
def TokenKind.Lexable : TokenKind → Prop
  | .defKeyword | .externKeyword => True
  | .identifier name => Text.isIdentifier name = true
  | .number value => ∃ index, value = .finite false index
  | .symbol c => Text.isAlone c = true
  | .endOfInput => False

theorem Text.isIdentifier_iff {name : String} : isIdentifier name = true ↔
    ∃ first rest, name.toList = first :: rest ∧ isLetter first = true ∧
      (∀ c ∈ rest, isWordPart c = true) ∧ name ≠ "def" ∧ name ≠ "extern" := by
  unfold isIdentifier
  split
  · rename_i h
    simp [h]
  · rename_i first rest h
    simp [h, and_assoc]

private theorem wordKind_lexable {first : Char} {rest : List Char}
    (hfirst : Text.isLetter first = true)
    (hrest : ∀ c ∈ rest, Text.isWordPart c = true) : (wordKind (first :: rest)).Lexable := by
  unfold wordKind
  split
  · trivial
  split
  · trivial
  · rename_i hdef hextern
    refine Text.isIdentifier_iff.mpr ⟨first, rest, String.toList_ofList, hfirst, hrest, ?_, ?_⟩
    · exact fun h => hdef (by rw [← String.toList_ofList (l := first :: rest), h]; rfl)
    · exact fun h => hextern (by rw [← String.toList_ofList (l := first :: rest), h]; rfl)

private theorem numberOrFault_eq_ok {literal : List Char} {pos : Pos} {found : Option Double}
    {t : Token} (h : numberOrFault literal pos found = .ok t) :
    ∃ value, found = some value ∧ (∀ negative, value ≠ .infinite negative) ∧
      t = ⟨.number value, pos⟩ := by
  cases found with
  | none => cases h
  | some value =>
    cases value with
    | infinite negative => cases h
    | _ =>
      cases h
      exact ⟨_, rfl, by simp, rfl⟩

private theorem numberToken_lexable {literal : List Char} {pos : Pos} {t : Token}
    (h : numberToken literal pos = .ok t) : t.kind.Lexable := by
  obtain ⟨value, hvalue, hfinite, rfl⟩ := numberOrFault_eq_ok h
  obtain ⟨d, _, hd⟩ := Option.map_eq_some_iff.mp hvalue
  rcases d.toDouble_cases false with ⟨index, hi⟩ | hi
  · exact ⟨index, hd.symm.trans hi⟩
  · exact absurd (hd.symm.trans hi) (hfinite false)

namespace Cursor

/-- White space and comments are skipped up to a character that is neither. -/
theorem skipFrom_head {inComment : Bool} {cs : List Char} {pos : Pos} {c : Char} {rest : List Char}
    (h : (skipFrom inComment cs pos).rest = c :: rest) : Text.isBlank c = false ∧ c ≠ '#' := by
  induction cs generalizing inComment pos with
  | nil => cases h
  | cons char cs ih =>
    unfold skipFrom at h
    split at h
    · exact ih h
    split at h
    · exact ih h
    split at h
    · exact ih h
    · cases h
      exact ⟨by simpa using ‹¬ Text.isBlank c = true›, ‹¬ c = '#'›⟩

private theorem lexeme?_lexable {c after : Cursor} {t : Token}
    (h : c.lexeme? = some (.ok t, after)) :
    t.kind.Lexable := by
  unfold lexeme? at h
  simp only at h
  split at h
  · cases h
  · rename_i char rest hrest
    split at h
    · rename_i hletter
      cases h
      have hword : Text.isWordPart char = true := by simp [Text.isWordPart, hletter]
      simp only [span, hrest, List.takeWhile_cons, hword, if_true]
      exact wordKind_lexable hletter (List.all_eq_true.mp List.all_takeWhile)
    split at h
    · obtain ⟨hnumber, rfl⟩ := Prod.mk.inj (Option.some.inj h)
      exact numberToken_lexable hnumber
    · rename_i hletter hnumber
      cases h
      obtain ⟨hblank, hcomment⟩ := skipFrom_head hrest
      change Text.isAlone char = true
      simp [Text.isAlone, hletter, hnumber, hblank, hcomment]

theorem lexemes_eq_cons {c after : Cursor} {found : Lexed} (h : c.lexeme? = some (found, after)) :
    c.lexemes = (found, after) :: after.lexemes := by
  rw [lexemes]
  split <;> simp_all

theorem lexemes_eq_nil {c : Cursor} (h : c.lexeme? = none) : c.lexemes = [] := by
  rw [lexemes]
  split <;> simp_all

/-- Only lexable tokens are found in a text. -/
theorem lexemes_lexable (c : Cursor) :
    ∀ found ∈ c.lexemes, ∀ t, found.1 = .ok t → t.kind.Lexable := by
  induction c using lexemes.induct with
  | case1 c h => simp [lexemes_eq_nil h]
  | case2 c found after h ih =>
    rw [lexemes_eq_cons h]
    intro entry hentry t ht
    rcases List.mem_cons.mp hentry with rfl | hentry
    · cases ht
      exact lexeme?_lexable h
    · exact ih entry hentry t ht

private theorem collectTokens_eq_ok_iff {found : List (Lexed × Cursor)} {stop : Cursor}
    {ts : List Token} :
    (collectTokens found stop).1 = .ok ts ↔ found.map (·.1) = ts.map Except.ok := by
  induction found generalizing ts with
  | nil => cases ts <;> simp [collectTokens]
  | cons entry rest ih =>
    obtain ⟨entry, after⟩ := entry
    cases entry with
    | error e => cases ts <;> simp [collectTokens]
    | ok t =>
      rw [collectTokens]
      generalize collectTokens rest stop = collected at ih ⊢
      obtain ⟨collected | us, end'⟩ := collected
      · cases ts with
        | nil => simp
        | cons u us => simpa using fun _ h => nomatch ih.mpr h
      · cases ts with
        | nil => simp
        | cons u vs => simpa using fun _ => @ih vs

/-- The tokens up to the first fault, if there is one. -/
theorem collectTokens_eq_error_iff {found : List (Lexed × Cursor)} {stop : Cursor}
    {fault : LexError} : (collectTokens found stop).1 = .error fault ↔
      ∃ (ts : List Token) (rest : List Lexed),
        found.map (·.1) = ts.map Except.ok ++ .error fault :: rest := by
  induction found with
  | nil => simp [collectTokens]
  | cons entry rest ih =>
    obtain ⟨entry, after⟩ := entry
    cases entry with
    | error e =>
      constructor
      · intro h
        cases h
        exact ⟨[], _, rfl⟩
      · rintro ⟨ts, _, h⟩
        cases ts with
        | nil =>
          cases h
          rfl
        | cons t ts => cases h
    | ok t =>
      have hsame : (collectTokens ((.ok t, after) :: rest) stop).1 = .error fault ↔
          (collectTokens rest stop).1 = .error fault := by
        rw [collectTokens]
        generalize collectTokens rest stop = collected
        obtain ⟨e | us, last⟩ := collected <;> simp
      rw [hsame, ih]
      constructor
      · rintro ⟨ts, more, h⟩
        exact ⟨t :: ts, more, by rw [List.map_cons, h]; rfl⟩
      · rintro ⟨ts, more, h⟩
        cases ts with
        | nil => cases h
        | cons u us => exact ⟨us, more, (List.cons.inj h).2⟩

end Cursor

/-- All tokens are found exactly if there is no fault among the lexemes. -/
theorem tokenize_eq_ok_iff {text : String} {ts : List Token} : tokenize text = .ok ts ↔
    (Cursor.ofText text .start).lexemes.map (·.1) = ts.map Except.ok :=
  Cursor.collectTokens_eq_ok_iff

end ExprLang
