import ExprLang.Proofs.Lexing.Margins
import ExprLang.Proofs.Reading.Onward
import ExprLang.Proofs.Session.History
import ExprLang.Proofs.Session.Told
import ExprLang.Proofs.Text.Pieces

/-! A session reads each line without the white space at its ends. It prints what it would print of
the line as it was typed, except for the places in messages: these are told as if the white space
had not been there. -/
namespace ExprLang

section
variable {t : Table} {levels : Nat} {a b : String} {f : Pos → Pos}

private theorem read_moved (ht : t.Legal)
    (hfound : (Cursor.ofText b .start).lexemes.map (·.1) =
      ((Cursor.ofText a .start).lexemes.map (·.1)).map (movedLexed f))
    (hfinish : (Cursor.ofText b .start).finish = f (Cursor.ofText a .start).finish) :
    ending t levels b = (ending t levels a).map (SyntaxError.moved f) ∧
      collected t levels b = (collected t levels a).map (Item.moved f) := by
  rcases begin?_cases a with ⟨s, hbegin, hs, hends⟩ | ⟨fault, rest, hbegin, hfault⟩
  · rcases begin?_cases b with ⟨s', hbegin', hs', hends'⟩ | ⟨fault, rest, _, hfault⟩
    · rw [hfound] at hs'
      have hbelow := hs.below hs' (by rw [hends', hfinish, hends])
      have hmoved := hbelow.within_moved ht levels fun _ => Nat.lt_succ_self _
      rw [ending_of_begin hbegin, ending_of_begin hbegin', collected_of_begin hbegin,
        collected_of_begin hbegin']
      exact ⟨hmoved.error, hmoved.items⟩
    · rw [hfound] at hfault
      exact absurd hfault (hs.map_ne_fault f _ _)
  · rw [hfault] at hfound
    rcases begin?_cases b with ⟨s', _, hs', _⟩ | ⟨fault', rest', hbegin', hfault'⟩
    · rw [hfound] at hs'
      exact hs'.not_fault.elim
    · rw [hfound] at hfault'
      cases hfault'
      rw [ending_of_begin_error hbegin, ending_of_begin_error hbegin',
        collected_of_begin_error hbegin, collected_of_begin_error hbegin']
      exact ⟨rfl, rfl⟩

private theorem read_nothing (h : (Cursor.ofText a .start).lexemes.map (·.1) = []) :
    ending t levels a = none ∧ collected t levels a = [] := by
  rcases begin?_cases a with ⟨s, hbegin, hs, _⟩ | ⟨fault, rest, _, hfault⟩
  · rw [h] at hs
    have hend : s.current.kind = .endOfInput := by rw [(Lookahead.At.nil_iff.mp hs).1]
    rw [ending_of_begin hbegin, collected_of_begin hbegin, Progress.ofLookahead,
      Progress.within_end _ hend]
    exact ⟨rfl, rfl⟩
  · rw [h] at hfault
    cases hfault

end

namespace Session

def margin (line : String) : Nat := (line.toList.takeWhile Text.isBlank).length

/-- The place in a line as it was typed that belongs to a place in the line without the white space
at its ends. The end is behind all of the white space. -/
def typedPlace (line : String) (p : Pos) : Pos :=
  if p = (Cursor.ofText (bare line) .start).finish then (Cursor.ofText line .start).finish
  else ⟨p.line, p.column + margin line⟩

section
variable {line : String} {t : Table} {verbose : Bool}

private theorem exists_margins (line : String) : ∃ before after : List Char,
    line.toList = before ++ ((bare line).toList ++ after) ∧ before.length = margin line ∧
      (∀ c ∈ before, Text.isBlank c = true) ∧ ∀ c ∈ after, Text.isBlank c = true := by
  obtain ⟨after, hline, hafter⟩ := Text.exists_trim Text.isBlank line.toList
  refine ⟨_, after, by rw [bare, String.toList_ofList, ← hline], rfl, ?_, hafter⟩
  exact List.all_eq_true.mp List.all_takeWhile

private theorem finish_of_line (h : '\n' ∉ line.toList) :
    (Cursor.ofText line .start).finish = ⟨1, 1 + line.toList.length⟩ := by
  rw [Cursor.finish]
  exact Pos.afterAll_of_line h .start

private theorem lineFeed_not_mem_bare (h : '\n' ∉ line.toList) : '\n' ∉ (bare line).toList := by
  obtain ⟨before, after, hline, _⟩ := exists_margins line
  rw [hline] at h
  simp only [List.mem_append, not_or] at h
  exact h.2.1

private theorem typedPlace_of_cut (h : '\n' ∉ line.toList) {front behind : List Char}
    (hcut : (bare line).toList = front ++ behind) (hbehind : behind ≠ []) :
    typedPlace line (Pos.start.afterAll front) = ⟨1, 1 + margin line + front.length⟩ := by
  have hbare := lineFeed_not_mem_bare h
  have hfront : '\n' ∉ front := fun hmem => hbare (by simp [hcut, hmem])
  have hshort : front.length < (bare line).toList.length := by
    rw [hcut, List.length_append]
    exact Nat.lt_add_of_pos_right (List.length_pos_iff.mpr hbehind)
  have hne : Pos.start.afterAll front ≠ (Cursor.ofText (bare line) .start).finish := by
    rw [Pos.afterAll_of_line hfront, finish_of_line hbare]
    simp only [Pos.start, ne_eq, Pos.mk.injEq, true_and]
    omega
  rw [typedPlace, if_neg hne, Pos.afterAll_of_line hfront]
  simp [Pos.start, Int.add_right_comm]

/-- What is found in a line is found without the white space at its ends as well, but at other
places. -/
theorem lexemes_of_line (h : '\n' ∉ line.toList) :
    (Cursor.ofText line .start).lexemes.map (·.1) =
      ((Cursor.ofText (bare line) .start).lexemes.map (·.1)).map (movedLexed (typedPlace line)) := by
  obtain ⟨before, after, hline, hlength, hbefore, hafter⟩ := exists_margins line
  have hfree := h
  rw [hline] at hfree
  simp only [List.mem_append, not_or] at hfree
  obtain ⟨hfreeBefore, hfreeBare, hfreeAfter⟩ := hfree
  -- White space in front is skipped, and white space behind adds nothing. What is left begins further
  -- on in the line.
  have hgap := Cursor.lexemes_gap ((Spacing.of_blank hbefore).trivia ((bare line).toList ++ after))
    .start
  have hblank := Cursor.lexemes_withBlank hafter hfreeAfter
    ⟨(bare line).toList, Pos.start.afterAll before⟩
  rw [Cursor.ofText, hline, hgap]
  refine hblank.trans (Cursor.lexemes_placed fun front behind hcut hbehind => ?_)
  have hfront : '\n' ∉ front := fun hmem => hfreeBare (by simp [hcut, hmem])
  rw [typedPlace_of_cut h hcut hbehind, Pos.afterAll_of_line hfreeBefore,
    Pos.afterAll_of_line hfront, hlength]
  rfl

/-- Only white space at the front moves a token, but any white space moves the end. -/
theorem typedPlace_eq_iff (h : '\n' ∉ line.toList) (p : Pos) : typedPlace line p = p ↔
    if p = (Cursor.ofText (bare line) .start).finish then bare line = line else margin line = 0 := by
  rw [typedPlace]
  split
  · rename_i hp
    rw [hp, finish_of_line h, finish_of_line (lineFeed_not_mem_bare h)]
    obtain ⟨before, after, hline, _⟩ := exists_margins line
    constructor
    · intro hends
      have hlength : line.toList.length = (bare line).toList.length := by
        simp only [Pos.mk.injEq, true_and] at hends
        omega
      rw [hline, List.length_append, List.length_append] at hlength
      obtain rfl : before = [] := List.eq_nil_of_length_eq_zero (by omega)
      obtain rfl : after = [] := List.eq_nil_of_length_eq_zero (by omega)
      rw [List.nil_append, List.append_nil] at hline
      exact String.toList_inj.mp hline.symm
    · intro hbare
      rw [hbare]
  · obtain ⟨pline, pcolumn⟩ := p
    simp

private theorem found_of_silent (h : '\n' ∉ line.toList) (hsilent : silent line = true) :
    (Cursor.ofText line .start).lexemes.map (·.1) = [] := by
  have hgap : Trivia [] (bare line).toList := by
    have hfree := lineFeed_not_mem_bare h
    cases hcs : (bare line).toList with
    | nil => exact .nil
    | cons c body =>
      have hc : c = '#' := by simpa [silent, ← String.toList_eq_nil_iff, hcs] using hsilent
      subst hc
      have hlong : Trivia [] ('#' :: (body ++ [])) := by
        refine .comment (fun c hc he => hfree ?_) (by simp) .nil
        rw [hcs]
        exact List.mem_cons_of_mem _ (he ▸ hc)
      rwa [List.append_nil] at hlong
  rw [lexemes_of_line h, Cursor.ofText, Cursor.lexemes_eq_nil (Cursor.lexeme?_trivia hgap _)]
  rfl

private theorem leaves_of_silent (h : silent line = true) : leaves line = false := by
  by_contra hleaves
  have hstays : leaves line = true := by simpa using hleaves
  rcases of_decide_eq_true hstays with hbare | hbare <;> simp [silent, hbare] at h

/-- What a session prints of a line is what would be printed of the line as it was typed, but for
the place that every error tells: this is the place in the line without the white space at its ends.
So the same is printed if there is no error, if an item in front of it is too deep to be echoed, if
reading stops at a token and the line has no white space at the front, or if it stops at the end and
the line has none at either end. Of blank lines and comments, nothing is printed in either way. -/
theorem answer_typed (ht : t.Legal) (limits : Limits) (h : '\n' ∉ line.toList) (verbose : Bool) :
    (silent line = true → answer limits (.ok t) verbose line = "" ∧
      Report.ofText limits (.ok t) verbose line = ⟨"", none⟩) ∧
    (leaves line = false → silent line = false → toggles line = false →
      answer limits (.ok t) verbose line =
        (Report.ofItems limits.source verbose (ending t limits.levels (bare line))
          (collected t limits.levels (bare line))).shown ∧
      Report.ofText limits (.ok t) verbose line =
        Report.ofItems limits.source verbose
          ((ending t limits.levels (bare line)).map (SyntaxError.moved (typedPlace line)))
          (collected t limits.levels (bare line)) ∧
      (∀ e, ending t limits.levels (bare line) = some e → ∃ p, e.place? = some p) ∧
      (answer limits (.ok t) verbose line = (Report.ofText limits (.ok t) verbose line).shown ↔
        (verbose = true ∧
          renderable limits.source (collected t limits.levels (bare line)) = false) ∨
        ∀ e p, ending t limits.levels (bare line) = some e → e.place? = some p →
          if p = (Cursor.ofText (bare line) .start).finish then bare line = line
          else margin line = 0)) := by
  refine ⟨fun hsilent => ⟨?_, ?_⟩, fun hstays hsilent htoggles => ?_⟩
  · simp [answer, react_cases (leaves_of_silent hsilent), hsilent]
  · obtain ⟨hending, hcollected⟩ := @read_nothing t limits.levels line (found_of_silent h hsilent)
    rw [Report.ofText_eq_ofItems, hending, hcollected]
    rfl
  have hanswer : answer limits (.ok t) verbose line =
      (Report.ofItems limits.source verbose (ending t limits.levels (bare line))
        (collected t limits.levels (bare line))).shown := by
    rw [answer_of_parsed hstays hsilent htoggles, Report.ofText_eq_ofItems]
  have hfinish : (Cursor.ofText line .start).finish =
      typedPlace line (Cursor.ofText (bare line) .start).finish := (if_pos rfl).symm
  obtain ⟨hending, hcollected⟩ := read_moved ht (lexemes_of_line h) hfinish
  have htyped : Report.ofText limits (.ok t) verbose line =
      Report.ofItems limits.source verbose
        ((ending t limits.levels (bare line)).map (SyntaxError.moved (typedPlace line)))
        (collected t limits.levels (bare line)) := by
    rw [Report.ofText_eq_ofItems, hending, hcollected, Report.ofItems_moved]
  refine ⟨hanswer, htyped, fun e he =>
    (parse_error_declared ht (parse_eq_error_iff.mpr he)).exists_place, ?_⟩
  rw [hanswer, htyped]
  cases ending t limits.levels (bare line) with
  | none => simp
  | some e =>
    rw [Option.map_some, Report.shown_ofItems_eq_iff, @eq_comm _ e.message,
      SyntaxError.message_moved_iff]
    refine or_congr_right ⟨fun hplace e' p he hp => ?_, fun hplace p hp => ?_⟩
    · cases he
      exact (typedPlace_eq_iff h p).mp (hplace p hp)
    · exact (typedPlace_eq_iff h p).mpr (hplace e p rfl hp)

end

private theorem begin?_bracket :
    begin? ")" = .ok ⟨⟨.symbol ')', ⟨1, 1⟩⟩, [], ⟨1, 2⟩, 1⟩ := by cbv

private theorem begin?_bracketBehindBlanks :
    begin? "  )" = .ok ⟨⟨.symbol ')', ⟨1, 3⟩⟩, [], ⟨1, 4⟩, 1⟩ := by cbv

private theorem begin?_nameThenBracket : begin? "x )" = .ok ⟨⟨.identifier "x", ⟨1, 1⟩⟩,
    [.ok ⟨.symbol ')', ⟨1, 3⟩⟩], ⟨1, 4⟩, 1⟩ := by cbv

/-- White space behind a bracket that is refused changes nothing, and a comment is silent. -/
theorem answer_typed_bracketAndComment :
    answer ⟨2, 2, 2⟩ (.ok .standard) true "x )\t" =
        (Report.ofText ⟨2, 2, 2⟩ (.ok .standard) true "x )\t").shown ∧
      answer ⟨2, 2, 2⟩ (.ok .standard) true " # )" =
        (Report.ofText ⟨2, 2, 2⟩ (.ok .standard) true " # )").shown := by
  have hline : '\n' ∉ "x )\t".toList := by decide
  have hcomment : '\n' ∉ " # )".toList := by decide
  have hbare : bare "x )\t" = "x )" := by decide
  have hfinish : (Cursor.ofText "x )" .start).finish = ⟨1, 4⟩ := by decide
  have hending : ending .standard 2 "x )" =
      some (.unexpected .expression ⟨.symbol ')', ⟨1, 3⟩⟩) := by
    rw [ending_of_begin begin?_nameThenBracket]
    rfl
  constructor
  · obtain ⟨_, _, _, hsame⟩ :=
      (answer_typed Table.standard_legal ⟨2, 2, 2⟩ hline true).2 (by decide) (by decide)
      (by decide +kernel)
    rw [hsame, hbare, hending]
    refine .inr fun e p he hp => ?_
    cases he
    cases hp
    rw [hfinish, if_neg (by decide)]
    decide
  · obtain ⟨hanswer, hreport⟩ :=
      (answer_typed Table.standard_legal ⟨2, 2, 2⟩ hcomment true).1 (by decide)
    rw [hanswer, hreport]
    rfl

/-- White space in front of a bracket that is refused is not counted in its column. -/
theorem answer_of_margin : '\n' ∉ "  )".toList ∧
    leaves "  )" = false ∧ silent "  )" = false ∧ toggles "  )" = false ∧
    answer ⟨2, 2, 2⟩ (.ok .standard) false "  )" =
      "[error] >>> unknown token when expecting an expression at line 1, col 1 (got Token(), )))\n" ∧
    (Report.ofText ⟨2, 2, 2⟩ (.ok .standard) false "  )").shown =
      "[error] >>> unknown token when expecting an expression at line 1, col 3 (got Token(), )))\n" ∧
    answer ⟨2, 2, 2⟩ (.ok .standard) false "  )" ≠
      (Report.ofText ⟨2, 2, 2⟩ (.ok .standard) false "  )").shown := by
  have hbare : bare "  )" = ")" := by decide
  have hstays : leaves "  )" = false := by decide
  have hsilent : silent "  )" = false := by decide
  have htoggles : toggles "  )" = false := by decide +kernel
  have hanswer : answer ⟨2, 2, 2⟩ (.ok .standard) false "  )" =
      "[error] >>> unknown token when expecting an expression at line 1, col 1 (got Token(), )))\n" := by
    rw [answer_of_parsed hstays hsilent htoggles, hbare, Report.ofText, begin?_bracket]
    decide +kernel
  have hreport : (Report.ofText ⟨2, 2, 2⟩ (.ok .standard) false "  )").shown =
      "[error] >>> unknown token when expecting an expression at line 1, col 3 (got Token(), )))\n" := by
    rw [Report.ofText, begin?_bracketBehindBlanks]
    decide +kernel
  refine ⟨by decide, hstays, hsilent, htoggles, hanswer, hreport, ?_⟩
  rw [hanswer, hreport]
  decide

end Session
end ExprLang
