import ExprLang.Proofs.Reading.Acceptance
import ExprLang.Proofs.Reading.Descent

/-! Only brackets make a text too deep to be read. However long its chains, its lists of arguments
and parameters and its items are, the calls that read it need no more frames than its brackets take.
Whatever is read with some number of levels or frames is read with more of them. -/
namespace ExprLang
open Reader

variable {t : Table} {levels more frames : Nat} {s s' : Lookahead}

private theorem Stops.le_nesting {levels : Int} {got : Token}
    (h : Stops levels s (.tooDeep got) s') :
    levels ≤ nesting s.tokens := by
  cases h with
  | fault _ _ hadvance =>
    obtain ⟨_, _, _, he, _⟩ := advance_eq_error_iff.mp hadvance
    cases he
  | tooDeep hpass hdeep =>
    rw [hpass.tokens_eq]
    exact Int.le_trans hdeep (balance_le_nesting _ _)

/-- A text is too deep to be read. -/
def BreaksOff {α : Type} (result : Except SyntaxError α) : Prop :=
  ∃ got, result = .error (.tooDeep got)

theorem not_breaksOff_ok {α : Type} (a : α) : ¬ BreaksOff (.ok a) := nofun

namespace Descent
variable {α : Type}

theorem fromText_breaksOff_iff {x : Reader α} {text : String} :
    BreaksOff (fromText x text) ↔ ∃ s, begin? text = .ok s ∧ TooDeepAt x s := by
  rw [fromText]
  cases hbegin : begin? text with
  | error e =>
    obtain ⟨fault, rfl⟩ := begin?_error_lexical hbegin
    exact ⟨fun ⟨_, h⟩ => (nomatch h), fun ⟨_, h, _⟩ => (nomatch h)⟩
  | ok s =>
    change BreaksOff (answer (x s)) ↔ _
    cases hx : x s with
    | ok a s' => simp [BreaksOff, answer, TooDeepAt, hx]
    | error e s' => simp [BreaksOff, answer, TooDeepAt, hx]

theorem fromText_of_begin {x : Reader α} {text : String} (h : begin? text = .ok s) :
    fromText x text = answer (x s) := by
  rw [fromText, h]
  rfl

private theorem fromText_agrees {x y : Reader α} (h : Agrees x y) {text : String}
    (hdeep : ¬ BreaksOff (fromText y text)) : fromText x text = fromText y text := by
  rw [fromText_breaksOff_iff] at hdeep
  rw [fromText, fromText]
  cases hbegin : begin? text with
  | error e => rfl
  | ok s => exact congrArg answer (h s fun htoo => hdeep ⟨s, hbegin, htoo⟩)

section
variable {x y : Reader Expr} (h : Agrees x y)
include h

private theorem itemOver_agrees : Agrees (itemOver x) (itemOver y) := by
  refine fun s => .behind fun token s1 _ => ?_
  split
  · exact .behind fun _ s2 _ => .behind fun proto s3 _ => .bind (h s3) fun _ _ _ => .of_eq rfl
  · exact .of_eq rfl
  · exact .bind (h s1) fun _ _ _ => .of_eq rfl

private theorem wholeOver_agrees : Agrees (wholeOver x) (wholeOver y) :=
  fun s => .bind (h s) fun _ _ _ => .of_eq rfl

end

private theorem itemsOver_agrees {x y : Reader Item} (h : Agrees x y) :
    Agrees (itemsOver x) (itemsOver y) := by
  refine fun s => .behind fun count s1 _ => turns_agrees (fun items s2 _ => ?_) _ [] s1
  refine .behind fun token s3 _ => .ite (fun _ => .of_eq rfl) fun _ => ?_
  exact .bind (h s3) fun _ _ _ => .of_eq rfl

/-! Items and programs with levels are made like those with frames. -/

private theorem item_eq_itemOver (entries : Entries) (levels : Nat) :
    Reader.item entries levels = itemOver (Reader.expression entries levels) := by
  funext s
  rw [Reader.item_eq, itemOver, current_bind]
  cases hk : s.current.kind with
  | defKeyword => rfl
  | externKeyword =>
    simp only [declaration, reduceCtorEq, if_true, if_false]
    rw [bind_assoc, current_bind]
    simp only [hk, bind_assoc]
  | _ => rfl

private theorem program_eq_itemsOver (ht : t.Legal) (levels : Nat) :
    Reader.program (.ofTable t) levels = itemsOver (Reader.item (.ofTable t) levels) := by
  funext s
  have hlength := s.length_tokens_le
  have hloop := (program_loop ht levels).ends [] s (s.ahead.length + 1 + 1) (by omega)
  have hempty : behind (Reader.program (.ofTable t) levels) [] = Reader.program (.ofTable t) levels := by
    simp [behind]
  rw [hempty] at hloop
  rw [hloop, itemsOver, left_bind]

private theorem answer_program (entries : Entries) (levels : Nat) (s : Lookahead) :
    answer (Reader.program entries levels s) = (Progress.ofLookahead entries levels s).result := by
  rw [Reader.program, Progress.result]
  cases (Progress.ofLookahead entries levels s).error <;> rfl

private theorem parse_eq_fromText (t : Table) (levels : Nat) (text : String) :
    ExprLang.parse t levels text = fromText (Reader.program (.ofTable t) levels) text := by
  rw [ExprLang.parse, fromText]
  cases begin? text with
  | error e => rfl
  | ok s => exact (answer_program (.ofTable t) levels s).symm

theorem parse_eq_itemsOver (ht : t.Legal) (levels : Nat) (text : String) :
    ExprLang.parse t levels text = fromText (itemsOver (Reader.item (.ofTable t) levels)) text := by
  rw [parse_eq_fromText, program_eq_itemsOver ht]

private theorem parseExpression_eq_fromText (t : Table) (levels : Nat) (text : String) :
    ExprLang.parseExpression t levels text =
      fromText (wholeOver (Reader.expression (.ofTable t) levels)) text := by
  cases hbegin : begin? text with
  | error e => rw [ExprLang.parseExpression, fromText, hbegin]; rfl
  | ok s =>
    rw [parseExpression_of_begin hbegin, fromText, hbegin]
    change _ = answer (wholeOver (Reader.expression (.ofTable t) levels) s)
    rw [wholeOver, bind_apply]
    cases Reader.expression (.ofTable t) levels s with
    | error e s' => rfl
    | ok e s' =>
      simp only [current_bind]
      split <;> rfl

/-! More frames, as many levels as frames, and as many frames as levels take. -/

theorem item_frames_agree (t : Table) (hle : frames ≤ more) :
    Agrees (item t more) (item t frames) := by
  match frames, more with
  | 0, _ | 1, _ | 2, _ => exact fun s hdeep => absurd breakOff_deep hdeep
  | frames + 3, more + 3 => exact itemOver_agrees (frames_agree (by omega)).2.2

theorem item_levels_agree (ht : t.Legal) (hle : frames ≤ levels) :
    Agrees (Reader.item (.ofTable t) levels) (item t frames) := by
  match frames with
  | 0 | 1 | 2 => exact fun s hdeep => absurd breakOff_deep hdeep
  | frames + 3 =>
    rw [item_eq_itemOver]
    exact itemOver_agrees (levels_agree ht (by omega)).2.2

private theorem program_levels_agree (ht : t.Legal) (hle : frames ≤ levels) :
    Agrees (Reader.program (.ofTable t) levels) (program t frames) := by
  match frames with
  | 0 => exact fun s hdeep => absurd breakOff_deep hdeep
  | frames + 1 =>
    rw [program_eq_itemsOver ht]
    exact itemsOver_agrees (item_levels_agree ht (by omega))

private theorem program_suffices (ht : t.Legal)
    (hframes : t.ranks + t.operandFrames levels + 3 < frames) :
    Agrees (program t frames) (Reader.program (.ofTable t) levels) := by
  obtain ⟨frames, rfl⟩ : ∃ n, frames = n + 4 := ⟨frames - 4, by omega⟩
  rw [program_eq_itemsOver ht, item_eq_itemOver]
  exact itemsOver_agrees (itemOver_agrees (expression_suffices ht (by omega)))

/-- What is read by calls that do not run out of frames is read with as many levels. -/
theorem parse_of_frames (ht : t.Legal) (hle : frames ≤ levels) {text : String}
    (hdeep : ¬ BreaksOff (parse t frames text)) :
    ExprLang.parse t levels text = parse t frames text := by
  rw [parse_eq_fromText]
  exact fromText_agrees (program_levels_agree ht (by omega)) hdeep

/-- So many frames are enough for what is read with some number of levels. -/
theorem parse_suffices (ht : t.Legal) {text : String}
    (hframes : t.ranks + t.operandFrames levels + 4 < frames)
    (hdeep : ¬ BreaksOff (ExprLang.parse t levels text)) :
    parse t frames text = ExprLang.parse t levels text := by
  rw [parse_eq_fromText] at hdeep ⊢
  exact fromText_agrees (program_suffices ht (by omega)) hdeep

private theorem parseExpression_suffices (ht : t.Legal) {text : String}
    (hframes : t.ranks + t.operandFrames levels + 1 < frames)
    (hdeep : ¬ BreaksOff (ExprLang.parseExpression t levels text)) :
    parseExpression t frames text = ExprLang.parseExpression t levels text := by
  rw [parseExpression_eq_fromText] at hdeep ⊢
  exact fromText_agrees (wholeOver_agrees (expression_suffices ht (by omega))) hdeep

theorem item_more (t : Table) (hle : levels ≤ more) :
    Agrees (Reader.item (.ofTable t) more) (Reader.item (.ofTable t) levels) := by
  rw [item_eq_itemOver, item_eq_itemOver]
  exact itemOver_agrees (expressionOver_agrees (Reader.operand_agrees (.ofTable t) hle) (.ofTable t))

private theorem parseExpression_more (hle : levels ≤ more) {text : String}
    (hdeep : ¬ BreaksOff (ExprLang.parseExpression t levels text)) :
    ExprLang.parseExpression t more text = ExprLang.parseExpression t levels text := by
  rw [parseExpression_eq_fromText] at hdeep
  rw [parseExpression_eq_fromText, parseExpression_eq_fromText]
  exact fromText_agrees (wholeOver_agrees
    (expressionOver_agrees (Reader.operand_agrees (.ofTable t) hle) (.ofTable t))) hdeep

end Descent

private theorem Progress.within_more (hle : levels ≤ more) (count : Nat)
    (hdeep : ∀ got, (within (.ofTable t) levels count s).error ≠ some (.tooDeep got)) :
    within (.ofTable t) more count s = within (.ofTable t) levels count s := by
  induction count generalizing s with
  | zero => rfl
  | succ count ih =>
    by_cases hend : s.current.kind = .endOfInput
    · rw [within_end _ hend, within_end _ hend]
    rw [within_succ _ _ hend] at hdeep
    rw [within_succ _ _ hend, within_succ _ _ hend]
    split
    · rw [if_pos ‹_›] at hdeep
      cases hadvance : Reader.advance s with
      | error e s1 => rfl
      | ok _ s1 =>
        rw [hadvance] at hdeep
        exact ih hdeep
    · rw [if_neg ‹_›] at hdeep
      have hitem : Reader.item (.ofTable t) more s = Reader.item (.ofTable t) levels s :=
        Descent.item_more t hle s fun ⟨got, s1, hbreaks⟩ => hdeep got (by rw [hbreaks])
      rw [hitem]
      cases hread : Reader.item (.ofTable t) levels s with
      | error e s1 => rfl
      | ok item s1 =>
        rw [hread] at hdeep
        exact congrArg (Progress.withItem item) (ih hdeep)

private theorem ofLookahead_more (hle : levels ≤ more) {text : String}
    (hdeep : ¬ BreaksOff (parse t levels text)) (hbegin : begin? text = .ok s) :
    Progress.ofLookahead (.ofTable t) more s = Progress.ofLookahead (.ofTable t) levels s :=
  Progress.within_more hle _ fun got hgot =>
    hdeep ⟨got, parse_eq_error_iff.mpr ((ending_of_begin hbegin).trans hgot)⟩

/-- With more levels the same is read, as long as the fewer ones suffice. -/
theorem parse_more (hle : levels ≤ more) {text : String}
    (hdeep : ¬ BreaksOff (parse t levels text)) : parse t more text = parse t levels text := by
  cases hbegin : begin? text with
  | error e => rw [parse_of_begin_error hbegin, parse_of_begin_error hbegin]
  | ok s =>
    rw [parse_of_begin hbegin, parse_of_begin hbegin, ofLookahead_more hle hdeep hbegin]

private theorem collected_more (hle : levels ≤ more) {text : String}
    (hdeep : ¬ BreaksOff (parse t levels text)) :
    collected t more text = collected t levels text := by
  cases hbegin : begin? text with
  | error e => rw [collected_of_begin_error hbegin, collected_of_begin_error hbegin]
  | ok s =>
    rw [collected_of_begin hbegin, collected_of_begin hbegin, ofLookahead_more hle hdeep hbegin]

/-- Two numbers of levels that both suffice come to the same. -/
theorem parse_eq_parse {text : String} (hlevels : ¬ BreaksOff (parse t levels text))
    (hmore : ¬ BreaksOff (parse t more text)) : parse t more text = parse t levels text := by
  rcases Nat.le_total levels more with hle | hle
  · exact parse_more hle hlevels
  · exact (parse_more hle hmore).symm

/-- With frames that suffice, a text is read as with any levels that suffice. -/
theorem Descent.parse_eq (ht : t.Legal) {frames : Nat} {text : String}
    (hframes : ¬ BreaksOff (Descent.parse t frames text))
    (hlevels : ¬ BreaksOff (ExprLang.parse t levels text)) :
    Descent.parse t frames text = ExprLang.parse t levels text := by
  have hsame := parse_of_frames ht (Nat.le_max_right levels frames) hframes
  rw [← hsame]
  exact parse_more (Nat.le_max_left levels frames) hlevels

theorem collected_eq_collected {text : String} (hlevels : ¬ BreaksOff (parse t levels text))
    (hmore : ¬ BreaksOff (parse t more text)) :
    collected t more text = collected t levels text := by
  rcases Nat.le_total levels more with hle | hle
  · exact collected_more hle hlevels
  · exact (collected_more hle hmore).symm

private theorem begin?_not_breaksOff {text : String} : ¬ BreaksOff (begin? text) := by
  rintro ⟨got, hbegin⟩
  obtain ⟨fault, hfault⟩ := begin?_error_lexical hbegin
  cases hfault

/-- Only a text whose brackets nest as deep as there are levels breaks off. -/
theorem parse_not_breaksOff (ht : t.Legal) {text : String}
    (h : nesting (leadingTokens text) < levels) :
    ¬ BreaksOff (parse t levels text) := by
  rintro ⟨got, hparse⟩
  rw [parse_eq_error_iff] at hparse
  cases hbegin : begin? text with
  | error e =>
    rw [ending_of_begin_error hbegin] at hparse
    cases hparse
    exact begin?_not_breaksOff ⟨got, hbegin⟩
  | ok s =>
    rw [ending_of_begin hbegin] at hparse
    have := (Progress.within_stops ht _ hparse).le_nesting
    rw [(tokens_of_begin? hbegin).1] at this
    omega

private theorem parseExpression_not_breaksOff (ht : t.Legal) {text : String}
    (h : nesting (leadingTokens text) < levels) : ¬ BreaksOff (parseExpression t levels text) := by
  rintro ⟨got, hparse⟩
  cases hbegin : begin? text with
  | error e =>
    rw [parseExpression_of_begin_error hbegin] at hparse
    exact begin?_not_breaksOff ⟨got, hbegin.trans (by cases hparse; rfl)⟩
  | ok s =>
    rw [parseExpression_of_begin hbegin] at hparse
    cases hread : Reader.expression (.ofTable t) levels s with
    | ok e s' =>
      simp only [hread] at hparse
      split at hparse <;> cases hparse
    | error e s' =>
      simp only [hread] at hparse
      cases hparse
      have := (expression_fails ht _ _ _ _ hread).le_nesting
      rw [(tokens_of_begin? hbegin).1] at this
      omega

/-- A text whose brackets and lists of arguments nest at most 150 deep is never too deep to be read,
as a program or as an expression, whatever else is in it. Read by calls on a stack, it takes no more
than 915 frames, and it is read as it is with any number of levels that is greater than 150. -/
theorem never_tooDeep (text : String) (h : nesting (leadingTokens text) ≤ 150) :
    (∀ levels, 150 < levels →
      ¬ BreaksOff (parse .standard levels text) ∧ ¬ BreaksOff (parseExpression .standard levels text)) ∧
    ∀ frames, 915 ≤ frames →
      ¬ BreaksOff (Descent.parse .standard frames text) ∧
      ¬ BreaksOff (Descent.parseExpression .standard frames text) ∧
      ∀ levels, 150 < levels →
        Descent.parse .standard frames text = parse .standard levels text ∧
        Descent.parseExpression .standard frames text = parseExpression .standard levels text := by
  have ht := Table.standard_legal
  have hframes : Table.standard.ranks + Table.standard.operandFrames 151 = 910 := by decide
  have hprogram : ¬ BreaksOff (parse .standard 151 text) := parse_not_breaksOff ht (by omega)
  have hexpression : ¬ BreaksOff (parseExpression .standard 151 text) :=
    parseExpression_not_breaksOff ht (by omega)
  refine ⟨fun levels hlevels => ⟨parse_not_breaksOff ht (by omega),
    parseExpression_not_breaksOff ht (by omega)⟩, fun frames hle => ?_⟩
  rw [Descent.parse_suffices ht (by omega) hprogram,
    Descent.parseExpression_suffices ht (by omega) hexpression]
  refine ⟨hprogram, hexpression, fun levels hlevels => ⟨?_, ?_⟩⟩
  · exact (parse_more hlevels hprogram).symm
  · exact (Descent.parseExpression_more hlevels hexpression).symm

/-- Three pairs of brackets are open at the end of this call. -/
theorem never_tooDeep_nestedCall :
    nesting (leadingTokens "f(a < b + c * g((d)))") = 3 ∧
    ¬ BreaksOff (Descent.parse .standard 915 "f(a < b + c * g((d)))") ∧
    Descent.parseExpression .standard 915 "f(a < b + c * g((d)))" =
      parseExpression .standard 151 "f(a < b + c * g((d)))" := by
  have hnesting : nesting (leadingTokens "f(a < b + c * g((d)))") = 3 := by cbv
  obtain ⟨_, hframes⟩ := never_tooDeep "f(a < b + c * g((d)))" (by omega)
  obtain ⟨hprogram, _, hsame⟩ := hframes 915 (Nat.le_refl _)
  exact ⟨hnesting, hprogram, (hsame 151 (by decide)).2⟩

end ExprLang
