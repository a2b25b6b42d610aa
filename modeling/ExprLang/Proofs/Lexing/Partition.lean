import ExprLang.Proofs.Lexing.Lexeme

/-! A text is cut into lexemes, with white space and comments between them, in exactly one way. Each
call for a token answers for the next lexeme. -/
namespace ExprLang

/-- Characters cut into lexemes, each with the trivia in front of it, and the trivia at the end. -/
inductive Partition where
  | last (gap : List Char)
  | piece (gap lexeme : List Char) (rest : Partition)

namespace Partition

def text : Partition → List Char
  | last gap => gap
  | piece gap lexeme rest => gap ++ (lexeme ++ rest.text)

/-- The lexemes in order. -/
def lexemes : Partition → List (List Char)
  | last _ => []
  | piece _ lexeme rest => lexeme :: rest.lexemes

/-- Every lexeme is as long as it can be, and nothing but trivia stands between lexemes. -/
def Legal : Partition → Prop
  | last gap => Trivia [] gap
  | piece gap lexeme rest =>
    Trivia (lexeme ++ rest.text) gap ∧ Lexeme rest.text lexeme ∧ rest.Legal

end Partition

namespace Cursor

/-- The answer of a call for a token, when `k` calls have been made before it. A fault does not end
the calls. -/
def call : Nat → Cursor → Lexed
  | 0, c => c.token.1
  | k + 1, c => c.token.2.call k

theorem token_append {gap lexeme rest : List Char} (hgap : Trivia (lexeme ++ rest) gap)
    (hlexeme : Lexeme rest lexeme) (pos : Pos) :
    ∃ found, Reports (pos.afterAll gap) lexeme found ∧
      token ⟨gap ++ (lexeme ++ rest), pos⟩ = (found, ⟨rest, pos.afterAll (gap ++ lexeme)⟩) := by
  obtain ⟨found, hfound, h⟩ := lexeme?_append hgap hlexeme pos
  exact ⟨found, hfound, by rw [token, h]⟩

theorem token_trivia {gap : List Char} (hgap : Trivia [] gap) (pos : Pos) :
    token ⟨gap, pos⟩ = (.ok ⟨.endOfInput, pos.afterAll gap⟩, ⟨[], pos.afterAll gap⟩) := by
  rw [token, lexeme?_trivia hgap]
  rfl

private theorem call_trivia {gap : List Char} (hgap : Trivia [] gap) (k : Nat) (pos : Pos) :
    call k ⟨gap, pos⟩ = .ok ⟨.endOfInput, pos.afterAll gap⟩ := by
  induction k generalizing gap pos with
  | zero => rw [call, token_trivia hgap]
  | succ k ih =>
    rw [call, token_trivia hgap, ih .nil]
    rfl

end Cursor

private theorem Reports.ne_end {place pos : Pos} {lexeme : List Char} {found : Lexed}
    (h : Reports place lexeme found) : found ≠ .ok ⟨.endOfInput, pos⟩ := by
  cases h <;> simp

namespace Partition

/-- Every text can be cut into lexemes. -/
theorem exists_legal (cs : List Char) : ∃ p : Partition, p.text = cs ∧ p.Legal := by
  induction cs using lexeme_induction with
  | trivia gap hgap => exact ⟨last gap, rfl, hgap⟩
  | lexeme gap lexeme rest hgap hlexeme ih =>
    obtain ⟨p, rfl, hp⟩ := ih
    exact ⟨piece gap lexeme p, rfl, hgap, hlexeme, hp⟩

/-- A text can be cut into lexemes in one way only. -/
theorem Legal.unique {p q : Partition} (hp : p.Legal) (hq : q.Legal) (htext : p.text = q.text) :
    p = q := by
  induction p generalizing q with
  | last gap =>
    cases q with
    | last gap' => exact congrArg last htext
    | piece gap' lexeme' rest' =>
      obtain ⟨hgap', hlexeme', _⟩ := hq
      have hnone := Cursor.lexeme?_trivia hp .start
      obtain ⟨found, _, hsome⟩ := Cursor.lexeme?_append hgap' hlexeme' .start
      rw [show gap = _ from htext, text, hsome] at hnone
      cases hnone
  | piece gap lexeme rest ih =>
    obtain ⟨hgap, hlexeme, hrest⟩ := hp
    obtain ⟨found, _, hsome⟩ := Cursor.lexeme?_append hgap hlexeme .start
    cases q with
    | last gap' =>
      have hnone := Cursor.lexeme?_trivia hq .start
      rw [show gap' = _ from htext.symm, text, hsome] at hnone
      cases hnone
    | piece gap' lexeme' rest' =>
      obtain ⟨hgap', hlexeme', hrest'⟩ := hq
      obtain ⟨found', _, hsome'⟩ := Cursor.lexeme?_append hgap' hlexeme' .start
      -- What is skipped first tells the gaps, and what is left behind the lexemes tells the rest.
      have hskip := Cursor.skipTrivia_append hgap (hlexeme.solid _) .start
      have hskip' := Cursor.skipTrivia_append hgap' (hlexeme'.solid _) .start
      rw [text, text] at htext
      rw [← htext] at hskip' hsome'
      obtain ⟨hboth, _⟩ := Cursor.mk.inj (hskip.symm.trans hskip')
      obtain ⟨_, hafter⟩ := Prod.mk.inj (Option.some.inj (hsome.symm.trans hsome'))
      obtain ⟨hrests, _⟩ := Cursor.mk.inj hafter
      obtain rfl := ih hrest hrest' hrests
      obtain rfl := List.append_cancel_right hboth
      obtain rfl := List.append_cancel_right htext
      rfl

/-- The calls answer for the lexemes in order, and behind them with the end of input. -/
theorem Legal.call {p : Partition} (hp : p.Legal) (k : Nat) (pos : Pos) :
    (∀ lexeme, p.lexemes[k]? = some lexeme →
      ∃ place, Reports place lexeme (Cursor.call k ⟨p.text, pos⟩)) ∧
    ((∃ place, Cursor.call k ⟨p.text, pos⟩ = .ok ⟨.endOfInput, place⟩) ↔ p.lexemes.length ≤ k) := by
  induction p generalizing k pos with
  | last gap =>
    rw [text, Cursor.call_trivia hp]
    exact ⟨by simp [lexemes], fun _ => Nat.zero_le k, fun _ => ⟨_, rfl⟩⟩
  | piece gap lexeme rest ih =>
    obtain ⟨hgap, hlexeme, hrest⟩ := hp
    obtain ⟨found, hfound, htoken⟩ := Cursor.token_append hgap hlexeme pos
    cases k with
    | zero =>
      rw [Cursor.call, text, htoken]
      refine ⟨fun lexeme' h => ?_, ?_⟩
      · obtain rfl : lexeme = lexeme' := by simpa [lexemes] using h
        exact ⟨_, hfound⟩
      · exact ⟨fun ⟨_, h⟩ => absurd h hfound.ne_end, by simp [lexemes]⟩
    | succ k =>
      rw [Cursor.call, text, htoken]
      simpa [lexemes] using ih hrest k (pos.afterAll (gap ++ lexeme))

end Partition

/-- Every text is cut into lexemes by maximal munch in exactly one way. The calls for a token answer
for the lexemes in order, and with the end of input from then on and never before. -/
theorem exists_unique_partition (text : String) (pos : Pos) : ∃ p : Partition,
    (p.text = text.toList ∧ p.Legal ∧ ∀ q : Partition, q.text = text.toList → q.Legal → q = p) ∧
    (∀ k lexeme, p.lexemes[k]? = some lexeme →
      ∃ place, Reports place lexeme ((Cursor.ofText text pos).call k)) ∧
    ∀ k, (∃ place, (Cursor.ofText text pos).call k = .ok ⟨.endOfInput, place⟩) ↔
      p.lexemes.length ≤ k := by
  obtain ⟨p, htext, hp⟩ := Partition.exists_legal text.toList
  have hcall (k : Nat) := hp.call k pos
  rw [htext] at hcall
  exact ⟨p, ⟨htext, hp, fun q hq hlegal => hlegal.unique hp (hq.trans htext.symm)⟩,
    fun k => (hcall k).1, fun k => (hcall k).2⟩

/-- The mark of a comment, a word that is longer than a keyword, and a number in two parts. -/
example : (List.range 5).map (fun k => (Cursor.ofText "defer # x\n 1.5.2²" .start).call k) =
    [.ok ⟨.identifier "defer", ⟨1, 1⟩⟩, .error ⟨.malformed "1.5.2", ⟨2, 2⟩⟩,
      .ok ⟨.symbol '²', ⟨2, 7⟩⟩, .ok ⟨.endOfInput, ⟨2, 8⟩⟩, .ok ⟨.endOfInput, ⟨2, 8⟩⟩] := by
  cbv

end ExprLang
