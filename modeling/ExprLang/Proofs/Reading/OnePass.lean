import ExprLang.Proofs.Reading.Loop
import ExprLang.Proofs.Reading.Refusal

/-! Texts are read in one pass. One token is asked for after the other, and none behind the end of
input. -/
namespace ExprLang

/-- Moving on at the tokens `ts` one after the other, none of which is the end of input. If a fault
is behind the last one, moving on fails there. -/
inductive Moves (s : Lookahead) : List Token → Lookahead → Prop
  | passed {ts : List Token} {s' : Lookahead} (hpass : Passes s ts s') : Moves s ts s'
  | refused {ts : List Token} {s1 s' : Lookahead} {e : SyntaxError} (hpass : Passes s ts s1)
      (hend : s1.current.kind ≠ .endOfInput) (hadvance : Reader.advance s1 = .error e s') :
      Moves s (ts ++ [s1.current]) s'

namespace Moves
variable {s s' : Lookahead} {ts : List Token}

private theorem taken_eq (h : Moves s ts s') : s'.taken = s.taken + ts.length := by
  cases h with
  | passed hpass => exact hpass.taken_eq
  | refused hpass _ hadvance =>
    obtain ⟨_, _, _, _, rfl⟩ := Reader.advance_eq_error_iff.mp hadvance
    rw [List.length_append, List.length_singleton, ← Nat.add_assoc, ← hpass.taken_eq]

private theorem tokens_prefix (h : Moves s ts s') : ts <+: s.tokens := by
  cases h with
  | passed hpass =>
    rw [hpass.tokens_eq]
    exact List.prefix_append _ _
  | refused hpass hend hadvance =>
    have htokens := hpass.tokens_eq
    rw [Lookahead.tokens_fault hend hadvance] at htokens
    exact htokens ▸ List.prefix_refl _

end Moves

private theorem Stops.moves {levels : Int} {s s' : Lookahead} {e : SyntaxError}
    (h : Stops levels s e s') :
    ∃ ts, Moves s ts s' := by
  cases h with
  | unexpected _ hpass => exact ⟨_, .passed hpass⟩
  | fault hpass hend hadvance => exact ⟨_, .refused hpass hend hadvance⟩
  | tooDeep hpass _ => exact ⟨_, .passed hpass⟩

variable {α : Type} {t : Table} {text : String}

/-- How many tokens are asked for when a text is read, with the first one. A text that begins with a
fault is not read on. -/
def pulls (x : Reader α) (text : String) : Nat :=
  match begin? text with
  | .ok s => (x.leaves s).taken
  | .error _ => 1

/-- A reader moves on only at tokens that are left and at none twice, wherever it begins. When it
reads a text, no more tokens are asked for than there are, and the end of input once. Where there is
an answer, all of them have been asked for. -/
structure OnePass (x : Reader α) (text : String) (answer : Except SyntaxError α) : Prop where
  moves : ∀ s, ∃ ts, Moves s ts (x.leaves s)
  pulls_le : pulls x text ≤ (leadingTokens text).length + 1
  pulls_eq : ∀ a, answer = .ok a → pulls x text = (leadingTokens text).length + 1

/-- Whoever only moves on and has an answer only at the end of input reads in one pass. -/
theorem OnePass.of_moves {x : Reader α} {answer : Except SyntaxError α}
    (hmoves : ∀ s, ∃ ts, Moves s ts (x.leaves s))
    (hanswer : ∀ a, answer = .ok a → ∃ s ts, begin? text = .ok s ∧ Passes s ts (x.leaves s) ∧
      (x.leaves s).current.kind = .endOfInput) : OnePass x text answer where
  moves := hmoves
  pulls_le := by
    rw [pulls]
    cases hbegin : begin? text with
    | ok s =>
      obtain ⟨htokens, htaken⟩ := tokens_of_begin? hbegin
      obtain ⟨ts, hts⟩ := hmoves s
      have hle := hts.tokens_prefix.length_le
      rw [htokens] at hle
      have htaken' : (x.leaves s).taken = s.taken + ts.length := hts.taken_eq
      change (x.leaves s).taken ≤ _
      omega
    | error e => exact Nat.le_add_left _ _
  pulls_eq a ha := by
    obtain ⟨s, ts, hbegin, hpass, hend⟩ := hanswer a ha
    obtain ⟨htokens, htaken⟩ := tokens_of_begin? hbegin
    have hall := hpass.tokens_eq
    rw [Lookahead.tokens_of_end hend, List.append_nil, htokens] at hall
    simp only [pulls, hbegin]
    rw [hpass.taken_eq, htaken, hall, Nat.add_comm]

private theorem program_moves (ht : t.Legal) (levels : Nat) (s : Lookahead) :
    ∃ ts, Moves s ts ((Reader.program (.ofTable t) levels).leaves s) := by
  rw [Progress.leaves_program]
  obtain ⟨items, error, s', hread⟩ : ∃ items error s',
      Progress.ofLookahead (.ofTable t) levels s = ⟨items, error, s'⟩ := ⟨_, _, _, rfl⟩
  rw [hread]
  cases error with
  | some e =>
    have hstops := Progress.within_stops ht _ (congrArg (·.error) hread)
    exact hread ▸ hstops.moves
  | none =>
    obtain ⟨ts, hpass, _⟩ :=
      (Progress.within_eq_iff ht _ fun _ => Nat.lt_succ_self _).mp hread
    exact ⟨ts, .passed hpass⟩

private theorem expression_moves (ht : t.Legal) (levels : Nat) (s : Lookahead) :
    ∃ ts, Moves s ts ((Reader.expression (.ofTable t) levels).leaves s) := by
  rw [Reader.leaves]
  cases hread : Reader.expression (.ofTable t) levels s with
  | ok e s' =>
    obtain ⟨ts, hpass, _⟩ := (Reader.expression_reads ht _ _ _ _).mp hread
    exact ⟨ts, .passed hpass⟩
  | error e s' => exact (Reader.expression_fails ht _ _ _ _ hread).moves

private theorem parse_onePass (ht : t.Legal) (levels : Nat) (text : String) :
    OnePass (Reader.program (.ofTable t) levels) text (parse t levels text) := by
  refine .of_moves (program_moves ht levels) fun items hparse => ?_
  cases hbegin : begin? text with
  | error e =>
    rw [parse_of_begin_error hbegin] at hparse
    cases hparse
  | ok s =>
    rw [parse_of_begin hbegin, Progress.result_eq_ok_iff] at hparse
    obtain ⟨ts, hpass, hend, _⟩ :=
      (Progress.within_eq_iff ht _ fun _ => Nat.lt_succ_self _).mp hparse
    rw [← Progress.leaves_program] at hpass hend
    exact ⟨s, ts, rfl, hpass, hend⟩

private theorem parseExpression_onePass (ht : t.Legal) (levels : Nat) (text : String) :
    OnePass (Reader.expression (.ofTable t) levels) text (parseExpression t levels text) := by
  refine .of_moves (expression_moves ht levels) fun e hparse => ?_
  cases hbegin : begin? text with
  | error e =>
    rw [parseExpression_of_begin_error hbegin] at hparse
    cases hparse
  | ok s =>
    rw [parseExpression_of_begin hbegin] at hparse
    cases hread : Reader.expression (.ofTable t) levels s with
    | error e s' =>
      simp only [hread] at hparse
      cases hparse
    | ok e s' =>
      simp only [hread] at hparse
      split at hparse
      · rename_i hend
        obtain ⟨ts, hpass, _⟩ := (Reader.expression_reads ht _ _ _ _).mp hread
        have hleaves : (Reader.expression (.ofTable t) levels).leaves s = s' := by
          rw [Reader.leaves, hread]
        rw [← hleaves] at hpass hend
        exact ⟨s, ts, rfl, hpass, hend⟩
      · cases hparse

/-- Every text is read in one pass, as a program and as an expression. Items, expressions and
operands take at least one token wherever they are read. So does every turn of a loop: over the
items of a program, the operators behind an expression, the arguments of a call and the parameters
of a prototype. -/
theorem reads_once (ht : t.Legal) (levels : Nat) (text : String) :
    OnePass (Reader.program (.ofTable t) levels) text (parse t levels text) ∧
    OnePass (Reader.expression (.ofTable t) levels) text (parseExpression t levels text) ∧
    Reader.Passing (Reader.item (.ofTable t) levels) ∧
    Reader.Passing (Reader.expression (.ofTable t) levels) ∧
    Reader.Passing (Reader.operand (.ofTable t) levels) ∧
    Reader.Loop (·.kind = .endOfInput) (Reader.itemTurn (Reader.item (.ofTable t) levels))
      (Reader.behind (Reader.program (.ofTable t) levels)) ∧
    (∀ least : Int, 0 ≤ least → Reader.Loop (t.strength · < least)
      (Reader.linkTurn t (Reader.operand (.ofTable t) levels) fun least =>
        Reader.chain (.ofTable t) (Reader.operand (.ofTable t) levels) (.integer least))
      (Reader.chain (.ofTable t) (Reader.operand (.ofTable t) levels) (.integer least))) ∧
    Reader.Loop (fun _ => false) (Reader.argumentTurn (Reader.expression (.ofTable t) levels))
      (Reader.behind (Reader.allArguments (Reader.expression (.ofTable t) levels))) ∧
    Reader.Loop (!·.isName) Reader.parameterTurn (Reader.behind Reader.allParameters) := by
  have hexpression := Reader.expression_passing ht levels
  exact ⟨parse_onePass ht levels text, parseExpression_onePass ht levels text,
    Reader.item_passing ht levels, hexpression, Reader.operand_passing ht levels,
    Reader.program_loop ht levels, fun _ hleast => Reader.chain_loop ht hleast levels,
    Reader.arguments_loop hexpression, Reader.parameters_loop⟩

private def sumAndName : Lookahead :=
  ⟨⟨.identifier "a", ⟨1, 1⟩⟩, [.ok ⟨.symbol '+', ⟨1, 3⟩⟩, .ok ⟨.identifier "b", ⟨1, 5⟩⟩,
    .ok ⟨.symbol ';', ⟨1, 6⟩⟩, .ok ⟨.identifier "c", ⟨1, 7⟩⟩], ⟨1, 8⟩, 1⟩

/-- The five tokens and the end of input are asked for when a sum and a name are read. -/
theorem reads_once_sumAndName :
    Table.standard.Legal ∧ (leadingTokens "a + b;c").length = 5 ∧
    pulls (Reader.program (.ofTable .standard) 2) "a + b;c" = 6 ∧
    OnePass (Reader.program (.ofTable .standard) 2) "a + b;c" (parse .standard 2 "a + b;c") ∧
    Reader.Loop (·.kind = .endOfInput) (Reader.itemTurn (Reader.item (.ofTable .standard) 2))
      (Reader.behind (Reader.program (.ofTable .standard) 2)) := by
  have hbegin : begin? "a + b;c" = .ok sumAndName := begin?_eq_ok_iff.mpr (by cbv)
  have hlength : (leadingTokens "a + b;c").length = 5 := by
    rw [← (tokens_of_begin? hbegin).1]
    rfl
  have hpulls : pulls (Reader.program (.ofTable .standard) 2) "a + b;c" = 6 := by
    rw [pulls, hbegin]
    rfl
  obtain ⟨hpass, _, _, _, _, hloop, _⟩ := reads_once Table.standard_legal 2 "a + b;c"
  exact ⟨Table.standard_legal, hlength, hpulls, hpass, hloop⟩

end ExprLang
