import ExprLang.Proofs.Lexing.Partition
import Mathlib.Data.List.Induction

/-! What a cursor answers, and where it stands, whatever has been asked of it before. Its place is
that behind the characters that have been read. -/
namespace ExprLang

namespace Pos

/-- The place behind some characters, by the line feeds among them and the characters behind the
last one. -/
def behind (p : Pos) (cs : List Char) : Pos where
  line := p.line + cs.count '\n'
  column := if '\n' ∈ cs then 1 + (cs.reverse.takeWhile (· != '\n')).length else p.column + cs.length

private theorem behind_concat (p : Pos) (cs : List Char) (c : Char) :
    p.behind (cs ++ [c]) = (p.behind cs).after c := by
  by_cases hc : c = '\n'
  · subst hc
    simp [behind, after, Int.add_assoc]
  · have hcount : (cs ++ [c]).count '\n' = cs.count '\n' := by simp [hc]
    have hmem : '\n' ∈ cs ++ [c] ↔ '\n' ∈ cs := by simp [Ne.symm hc]
    have hline : (cs ++ [c]).reverse.takeWhile (· != '\n') =
        c :: cs.reverse.takeWhile (· != '\n') := by simp [hc]
    simp only [behind, after, if_neg hc, hcount, hmem, hline, List.length_append,
      List.length_cons, List.length_nil]
    split <;> simp [Int.add_assoc]

/-- Reading one character after the other leads to the place behind them. -/
theorem afterAll_eq_behind (p : Pos) (cs : List Char) : p.afterAll cs = p.behind cs := by
  induction cs using List.reverseRecOn with
  | nil => simp [behind]
  | append_singleton cs c ih =>
    rw [behind_concat, ← ih, afterAll_append]
    rfl

theorem behind_append (p : Pos) (cs ds : List Char) :
    p.behind (cs ++ ds) = (p.behind cs).afterAll ds := by
  rw [← afterAll_eq_behind, afterAll_append, afterAll_eq_behind p cs]

end Pos

/-- What can be asked of a cursor. To take the tokens of a text one at a time is to ask for one
token after the other. -/
inductive Operation where
  | next
  | peek
  | atEnd
  | skipTrivia
  | skipComment
  | token
  | tokens
  deriving DecidableEq, Repr

/-- What a cursor answers. -/
inductive Answer where
  | read (char : Char)
  | pastEnd (message : String)
  | pending (char : Option Char)
  | ended (answer : Bool)
  | skipped
  | found (lexed : Lexed)
  | listed (ts : Except LexError (List Token))

variable {start : Pos}

/-- Behind `before`, the characters `taken` are lexemes with trivia in front of each. What is found
for a lexeme has the place of its first character. -/
inductive Found (start : Pos) (rest : List Char) : (before taken : List Char) → List Lexed → Prop
  | nil {before : List Char} : Found start rest before [] []
  | cons {before gap lexeme taken : List Char} {lexed : Lexed} {others : List Lexed}
      (hgap : Trivia (lexeme ++ (taken ++ rest)) gap) (hlexeme : Lexeme (taken ++ rest) lexeme)
      (hlexed : Reports (start.behind (before ++ gap)) lexeme lexed)
      (hothers : Found start rest (before ++ (gap ++ lexeme)) taken others) :
      Found start rest before (gap ++ (lexeme ++ taken)) (lexed :: others)

/-- What an answer says of the characters `taken` for it, behind `before` and in front of `rest`. -/
def Answer.Holds (start : Pos) (before taken rest : List Char) : Answer → Prop
  | read char => taken = [char]
  | pastEnd _ => taken = [] ∧ rest = []
  | pending char => taken = [] ∧ char = rest.head?
  | ended answer => taken = [] ∧ (answer = true ↔ rest = [])
  | skipped => True
  | found lexed => Found start rest before taken [lexed] ∨
    rest = [] ∧ Trivia [] taken ∧ lexed = .ok ⟨.endOfInput, start.behind (before ++ taken)⟩
  | listed (.ok ts) => rest = [] ∧ ∃ cs gap, taken = cs ++ gap ∧ Trivia [] gap ∧
    Found start gap before cs (ts.map .ok)
  | listed (.error e) => ∃ ts : List Token, Found start rest before taken (ts.map .ok ++ [.error e])

namespace Cursor

/-- Do what is asked. -/
def perform (c : Cursor) : Operation → Answer × Cursor
  | .next =>
    match c.next? with
    | some (char, after) => (.read char, after)
    | none => (.pastEnd c.pastEndMessage, c)
  | .peek => (.pending c.peek?, c)
  | .atEnd => (.ended c.atEnd, c)
  | .skipTrivia => (.skipped, c.skipTrivia)
  | .skipComment => (.skipped, c.skipComment)
  | .token => (.found c.token.1, c.token.2)
  | .tokens => (.listed c.tokens.1, c.tokens.2)

/-- Do one thing after the other. A fault ends nothing. -/
def performAll (c : Cursor) (ops : List Operation) : Cursor :=
  ops.foldl (fun c op => (c.perform op).2) c

/-- From one cursor to another some characters are read. -/
structure Takes (c : Cursor) (taken : List Char) (after : Cursor) : Prop where
  rest_eq : c.rest = taken ++ after.rest
  pos_eq : after.pos = c.pos.afterAll taken

variable {c after : Cursor} {before : List Char}

private theorem Takes.none (c : Cursor) : Takes c [] c := ⟨rfl, rfl⟩

private theorem Takes.append {c' : Cursor} {cs ds : List Char} (h : Takes c cs after)
    (h' : Takes after ds c') : Takes c (cs ++ ds) c' :=
  ⟨by rw [h.rest_eq, h'.rest_eq, List.append_assoc],
    by rw [h'.pos_eq, h.pos_eq, Pos.afterAll_append]⟩

private theorem Takes.eq (h : Takes c [] after) : after = c := by
  have hrest : after.rest = c.rest := h.rest_eq.symm
  have hpos : after.pos = c.pos := h.pos_eq
  calc
    after = ⟨after.rest, after.pos⟩ := rfl
    _ = ⟨c.rest, c.pos⟩ := by rw [hrest, hpos]

private theorem exists_legal (c : Cursor) : ∃ p : Partition, p.Legal ∧ c = ⟨p.text, c.pos⟩ := by
  obtain ⟨p, htext, hp⟩ := Partition.exists_legal c.rest
  exact ⟨p, hp, by rw [htext]⟩

/-- A token is found behind trivia, or the end of input behind the last trivia. -/
theorem token_holds (c : Cursor) (hpos : c.pos = start.behind before) :
    ∃ taken, Takes c taken c.token.2 ∧
      (Answer.found c.token.1).Holds start before taken c.token.2.rest := by
  obtain ⟨p, hp, hc⟩ := c.exists_legal
  rw [hpos] at hc
  subst hc
  cases p with
  | last gap =>
    rw [Partition.text, token_trivia hp, ← Pos.behind_append]
    exact ⟨gap, ⟨(List.append_nil gap).symm, Pos.behind_append _ _ _⟩, .inr ⟨rfl, hp, rfl⟩⟩
  | piece gap lexeme rest =>
    obtain ⟨hgap, hlexeme, _⟩ := hp
    obtain ⟨lexed, hlexed, htoken⟩ := token_append hgap hlexeme (start.behind before)
    rw [← Pos.behind_append] at hlexed
    rw [Partition.text, htoken]
    refine ⟨gap ++ (lexeme ++ []), ⟨by simp, by simp⟩, .inl ?_⟩
    exact .cons hgap hlexeme hlexed .nil

private theorem tokens_trivia {gap : List Char} (hgap : Trivia [] gap) (pos : Pos) :
    tokens ⟨gap, pos⟩ = (.ok [], ⟨[], pos.afterAll gap⟩) := by
  rw [tokens, lexemes_eq_nil (lexeme?_trivia hgap pos)]
  rfl

private theorem tokens_append {gap lexeme rest : List Char} (hgap : Trivia (lexeme ++ rest) gap)
    (hlexeme : Lexeme rest lexeme) (pos : Pos) :
    ∃ lexed, Reports (pos.afterAll gap) lexeme lexed ∧
      tokens ⟨gap ++ (lexeme ++ rest), pos⟩ =
        match lexed with
        | .error e => (.error e, ⟨rest, pos.afterAll (gap ++ lexeme)⟩)
        | .ok t =>
          match tokens ⟨rest, pos.afterAll (gap ++ lexeme)⟩ with
          | (.ok ts, after) => (.ok (t :: ts), after)
          | (.error e, after) => (.error e, after) := by
  obtain ⟨lexed, hlexed, h⟩ := lexeme?_append hgap hlexeme pos
  have hend : toEnd ⟨gap ++ (lexeme ++ rest), pos⟩ =
      toEnd ⟨rest, pos.afterAll (gap ++ lexeme)⟩ := by
    simp [toEnd, finish]
  refine ⟨lexed, hlexed, ?_⟩
  rw [tokens, lexemes_eq_cons h, hend]
  cases lexed <;> rfl

private theorem tokens_holds (c : Cursor) (hpos : c.pos = start.behind before) :
    ∃ taken, Takes c taken c.tokens.2 ∧
      (Answer.listed c.tokens.1).Holds start before taken c.tokens.2.rest := by
  obtain ⟨p, hp, hc⟩ := c.exists_legal
  rw [hpos] at hc
  subst hc
  clear hpos
  induction p generalizing before with
  | last gap =>
    rw [Partition.text, tokens_trivia hp]
    exact ⟨gap, ⟨(List.append_nil gap).symm, rfl⟩, rfl, [], gap, rfl, hp, .nil⟩
  | piece gap lexeme rest ih =>
    obtain ⟨hgap, hlexeme, hrest⟩ := hp
    obtain ⟨lexed, hlexed, htokens⟩ := tokens_append hgap hlexeme (start.behind before)
    have hfirst : Takes ⟨gap ++ (lexeme ++ rest.text), start.behind before⟩ (gap ++ lexeme)
        ⟨rest.text, start.behind (before ++ (gap ++ lexeme))⟩ :=
      ⟨(List.append_assoc gap lexeme rest.text).symm, Pos.behind_append _ _ _⟩
    rw [← Pos.behind_append] at hlexed htokens
    rw [Partition.text, htokens]
    cases lexed with
    | error e =>
      refine ⟨gap ++ lexeme, hfirst, [], ?_⟩
      have hfound := Found.cons hgap hlexeme hlexed (@Found.nil start _ _)
      simpa using hfound
    | ok t =>
      obtain ⟨taken, htaken, hholds⟩ := @ih (before ++ (gap ++ lexeme)) hrest
      refine ⟨gap ++ (lexeme ++ taken), ?_⟩
      generalize tokens ⟨rest.text, start.behind (before ++ (gap ++ lexeme))⟩ = listed
        at htaken hholds
      have hboth := hfirst.append htaken
      rw [List.append_assoc] at hboth
      have hall : rest.text = taken ++ listed.2.rest := htaken.rest_eq
      rw [hall] at hgap hlexeme
      obtain ⟨e | ts, after⟩ := listed
      · obtain ⟨ts, hts⟩ := hholds
        exact ⟨hboth, t :: ts, .cons hgap hlexeme hlexed hts⟩
      · obtain ⟨hend, cs, last, rfl, hlast, hts⟩ := hholds
        have hend : after.rest = [] := hend
        rw [hend, List.append_nil] at hgap hlexeme
        refine ⟨hboth, hend, gap ++ (lexeme ++ cs), last, by simp, hlast, ?_⟩
        exact .cons hgap hlexeme hlexed hts

/-- Whatever is asked, some characters are read, and the answer holds of them. -/
theorem perform_holds (c : Cursor) (hpos : c.pos = start.behind before) (op : Operation) :
    ∃ taken, Takes c taken (c.perform op).2 ∧
      (c.perform op).1.Holds start before taken (c.perform op).2.rest := by
  cases op with
  | next =>
    obtain ⟨rest, pos⟩ := c
    cases rest with
    | nil => exact ⟨[], .none _, rfl, rfl⟩
    | cons char rest => exact ⟨[char], ⟨rfl, rfl⟩, rfl⟩
  | peek => exact ⟨[], .none c, rfl, rfl⟩
  | atEnd => exact ⟨[], .none c, rfl, List.isEmpty_iff⟩
  | skipTrivia =>
    obtain ⟨gap, _, hrest, hpos⟩ := c.exists_skipTrivia
    exact ⟨gap, ⟨hrest, hpos⟩, trivial⟩
  | skipComment => exact ⟨_, ⟨(c.span_append (· != '\n')).symm, rfl⟩, trivial⟩
  | token => exact c.token_holds hpos
  | tokens => exact c.tokens_holds hpos

/-- However many things are done, the cursor stands behind what was read. -/
theorem performAll_takes (ops : List Operation) (c : Cursor) (hpos : c.pos = start.behind before) :
    ∃ taken, Takes c taken (c.performAll ops) := by
  induction ops generalizing c before with
  | nil => exact ⟨[], .none c⟩
  | cons op ops ih =>
    obtain ⟨first, hfirst, _⟩ := c.perform_holds hpos op
    have hnext : (c.perform op).2.pos = start.behind (before ++ first) := by
      rw [hfirst.pos_eq, hpos, Pos.behind_append]
    obtain ⟨rest, hrest⟩ := ih (c.perform op).2 hnext
    exact ⟨first ++ rest, hfirst.append hrest⟩

/-- Whatever has been asked before, what was read, the pending character and the unread text make up
the source, and the cursor stands at the place behind what was read. Whatever is asked next, the
answer says where its tokens and faults begin, and a character asked for in vain changes nothing. -/
theorem performAll_place (text : String) (start : Pos) (ops : List Operation) :
    let c := (Cursor.ofText text start).performAll ops
    ∃ before, text.toList = before ++ (c.peek?.toList ++ c.rest.tail) ∧ c.pos = start.behind before ∧
      ∀ op, (∃ taken, c.rest = taken ++ (c.perform op).2.rest ∧
          (c.perform op).2.pos = start.behind (before ++ taken) ∧
          (c.perform op).1.Holds start before taken (c.perform op).2.rest) ∧
        ∀ message, (c.perform op).1 = .pastEnd message → (c.perform op).2 = c := by
  intro c
  have hstart : (Cursor.ofText text start).pos = start.behind [] := by simp [ofText, Pos.behind]
  obtain ⟨before, hbefore⟩ : ∃ before, Takes (Cursor.ofText text start) before c :=
    performAll_takes ops _ hstart
  have hpos : c.pos = start.behind before := by
    rw [hbefore.pos_eq, hstart, ← Pos.behind_append]
    rfl
  have hrest : c.peek?.toList ++ c.rest.tail = c.rest := by
    cases h : c.rest <;> simp [peek?, h]
  refine ⟨before, ?_, hpos, fun op => ?_⟩
  · rw [hrest]
    exact hbefore.rest_eq
  · obtain ⟨taken, htaken, hholds⟩ := c.perform_holds hpos op
    refine ⟨⟨taken, htaken.rest_eq, ?_, hholds⟩, fun message h => ?_⟩
    · rw [htaken.pos_eq, hpos, Pos.behind_append]
    · rw [h] at hholds
      obtain ⟨rfl, _⟩ := hholds
      exact htaken.eq

end Cursor
end ExprLang
