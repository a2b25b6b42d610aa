import ExprLang.Proofs.Lexing.Cut
import ExprLang.Proofs.Precedence.Check
import ExprLang.Proofs.Reading.Calls

/-! A character is a token of its own wherever it stands, or there is a text that swallows it. The
characters that may be operators are of the first kind. -/
namespace ExprLang

namespace Cursor

/-- The cursor behind `k` calls for a token. A fault does not end the calls. -/
def behindCalls : Nat → Cursor → Cursor
  | 0, c => c
  | k + 1, c => c.token.2.behindCalls k

private theorem call_eq_token (c : Cursor) (k : Nat) : c.call k = (c.behindCalls k).token.1 := by
  induction k generalizing c with
  | zero => rfl
  | succ k ih => exact ih c.token.2

private theorem token_behindCalls {c : Cursor} {passed rest : List (Lexed × Cursor)}
    {found : Lexed × Cursor}
    (h : c.lexemes = passed ++ found :: rest) : (c.behindCalls passed.length).token = found := by
  induction passed generalizing c with
  | nil =>
    cases hfirst : c.lexeme? with
    | none => simp [lexemes_eq_nil hfirst] at h
    | some first =>
      obtain ⟨hfound, _⟩ := List.cons.inj ((lexemes_eq_cons hfirst).symm.trans h)
      rw [List.length_nil, behindCalls, token, hfirst]
      exact hfound
  | cons first passed ih =>
    cases hfirst : c.lexeme? with
    | none => simp [lexemes_eq_nil hfirst] at h
    | some entry =>
      obtain ⟨_, hrest⟩ := List.cons.inj ((lexemes_eq_cons hfirst).symm.trans h)
      have hnext : c.token.2 = entry.2 := by rw [token, hfirst]
      rw [List.length_cons, behindCalls, hnext]
      exact ih hrest

end Cursor

/-- Between two texts, a character is a token of its own: a call for a token answers with it and its
place, and leaves all that stands behind it. -/
def Isolated (c : Char) (before after : String) : Prop :=
  ∃ k, ((Cursor.ofText (before ++ String.singleton c ++ after) .start).behindCalls k).token =
    (.ok ⟨.symbol c, Pos.start.afterAll before.toList⟩,
      .ofText after ((Pos.start.afterAll before.toList).after c))

variable {c : Char} {before after : String}

private theorem ofText_between : Cursor.ofText (before ++ String.singleton c ++ after) .start =
    (Cursor.ofText before .start).withMore (c :: after.toList) := by
  simp [Cursor.ofText, Cursor.withMore, String.toList_append]

private theorem isolated_of_isAlone (halone : Text.isAlone c = true)
    (hword : Text.isWordPart c = false)
    (hclosed : ¬ OpenComment before.toList) : Isolated c before after := by
  obtain ⟨hletter, hnumber, _⟩ := Text.isAlone_iff.mp halone
  have hbreaks : Breaks (Cursor.ofText before .start).rest (c :: after.toList) :=
    ⟨parts_cons hword hnumber, fun hopen => absurd hopen hclosed⟩
  have hsymbol (place : Pos) : Cursor.lexeme? ⟨c :: after.toList, place⟩ =
      some (.ok ⟨.symbol c, place⟩, .ofText after (place.after c)) := by
    have hfound := Cursor.lexeme?_eq_lexedAs .nil (.symbol halone : Lexeme after.toList [c]) place
    simpa [lexedAs_symbol halone, Cursor.ofText] using hfound
  have hcut := Cursor.lexemes_cut _ hbreaks
  rw [Cursor.lexemes_eq_cons (hsymbol _), ← ofText_between] at hcut
  exact ⟨_, Cursor.token_behindCalls hcut⟩

private theorem Isolated.mem_lexemes (h : Isolated c before after) :
    .ok ⟨.symbol c, Pos.start.afterAll before.toList⟩ ∈
      (Cursor.ofText (before ++ String.singleton c ++ after) .start).lexemes.map (·.1) := by
  obtain ⟨k, htoken⟩ := h
  refine Cursor.mem_lexemes_of_call (k := k) ?_ (by simp)
  rw [Cursor.call_eq_token, htoken]

private theorem Isolated.isAlone (h : Isolated c before after) : Text.isAlone c = true := by
  obtain ⟨found, hfound, hsymbol⟩ := List.mem_map.mp h.mem_lexemes
  exact Cursor.lexemes_lexable _ found hfound _ hsymbol

private theorem Isolated.not_isWordPart (h : Isolated c "a" "") : Text.isWordPart c = false := by
  by_contra hpart
  have hword : Lexeme [] ['a', c] := .word (by decide +kernel) (by simpa using hpart) (by simp)
  have hone : Cursor.lexeme? ⟨['a', c], .start⟩ = some (.ok ⟨wordKind ['a', c], .start⟩, _) :=
    Cursor.lexeme?_eq_lexedAs .nil hword .start
  have hmem := h.mem_lexemes
  have htext : (Cursor.ofText "a" .start).withMore (c :: "".toList) = ⟨['a', c], .start⟩ := rfl
  rw [ofText_between, htext, Cursor.lexemes_eq_cons hone,
    Cursor.lexemes_eq_nil (Cursor.lexeme?_trivia .nil _)] at hmem
  simp [wordKind] at hmem

/-- A character is a token of its own wherever no comment is open exactly if it begins and continues
no other token. -/
theorem isolated_iff :
    (∀ before after : String, ¬ OpenComment before.toList → Isolated c before after) ↔
      Text.isAlone c = true ∧ Text.isWordPart c = false := by
  constructor
  · intro h
    exact ⟨(h "" "" fun hopen => by simpa using hopen.mark_mem).isAlone,
      (h "a" "" fun hopen => by simpa using hopen.mark_mem).not_isWordPart⟩
  · rintro ⟨halone, hword⟩ before after hclosed
    exact isolated_of_isAlone halone hword hclosed

/-- A proposal of one operator with a strength above zero stands or falls with the operator. -/
theorem Entries.check_single_eq_ok_iff {n : Int} (hn : 0 < n) :
    (∃ t, (ofList [(.text (String.singleton c), .integer n)]).check = .ok t) ↔
      isOperatorChar c = true := by
  constructor
  · rintro ⟨t, ht⟩
    obtain ⟨hpairs, hentries⟩ := check_eq_ok_iff.mp ht
    obtain ⟨entry, hentry, hpair⟩ := List.map_eq_singleton_iff.mp (congrArg Entries.pairs hpairs).symm
    obtain rfl : entry.1 = c := by simpa [String.ext_iff] using (Prod.mk.inj hpair).1
    exact (hentries entry (by simp [hentry])).1
  · intro hc
    exact ⟨⟨[(c, n)]⟩, check_eq_ok_iff.mpr ⟨rfl, by simp [hc, hn]⟩⟩

/-- A character may be an operator exactly if it is none of the brackets and separators and is a
token of its own wherever no comment is open. So a text never swallows an operator of a legal
table. -/
theorem check_single_iff_isolated (c : Char) {n : Int} (hn : 0 < n) :
    ((∃ t, (Entries.ofList [(.text (String.singleton c), .integer n)]).check = .ok t) ↔
      c ∉ ['(', ')', ',', ';'] ∧
        ∀ before after : String, ¬ OpenComment before.toList → Isolated c before after) ∧
    ∀ t : Table, t.Legal → ∀ entry ∈ t.entries, ∀ before after : String,
      ¬ OpenComment before.toList → Isolated entry.1 before after := by
  refine ⟨?_, fun t ht entry hentry => ?_⟩
  · rw [Entries.check_single_eq_ok_iff hn, Text.isOperatorChar_iff, isolated_iff]
  · exact isolated_iff.mpr (Text.isOperatorChar_iff.mp (ht.operator entry hentry)).2

/-- The sign of division is a token of its own behind a word and a number and in front of a comment,
and a raised two is none behind some text. -/
theorem check_single_iff_isolated_divisionAndSuperscript : (0 : Int) < 1 ∧
    Isolated '÷' "# x\na1.5" "# y" ∧
    ¬ ∀ before after : String, ¬ OpenComment before.toList → Isolated '²' before after := by
  refine ⟨by decide, ?_, fun h => ?_⟩
  · have hcheck : ∃ t, (Entries.ofList [(.text (String.singleton '÷'), .integer 1)]).check = .ok t :=
      ⟨⟨[('÷', 1)]⟩, by decide +kernel⟩
    refine ((check_single_iff_isolated '÷' (by decide)).1.mp hcheck).2 _ _ fun hopen => ?_
    have hlast : OpenComment ['a', '1', '.', '5'] := @OpenComment.of_line _ ['#', ' ', 'x'] hopen
    simpa using hlast.mark_mem
  · obtain ⟨t, ht⟩ := (check_single_iff_isolated '²' (n := 1) (by decide)).1.mpr ⟨by decide, h⟩
    have hrefused : (Entries.ofList [(.text (String.singleton '²'), .integer 1)]).check =
        .error (.notAnOperator '²') := by decide +kernel
    rw [hrefused] at ht
    cases ht

end ExprLang
