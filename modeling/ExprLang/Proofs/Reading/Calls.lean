import ExprLang.Proofs.Lexing.Operation
import ExprLang.Proofs.Reading.Begin

/-! How far a lookahead has come in a text, by the calls for a token that were answered. -/
namespace ExprLang

namespace Cursor

private theorem Takes.finish_eq {c after : Cursor} {taken : List Char} (h : Takes c taken after) :
    after.finish = c.finish := by
  rw [finish, finish, h.rest_eq, h.pos_eq, Pos.afterAll_append]

/-- The calls for a token answer with what is left in order, and with the end of input behind it. -/
theorem call_eq (c : Cursor) (k : Nat) :
    c.call k = (c.lexemes.map (·.1))[k]?.getD (.ok ⟨.endOfInput, c.finish⟩) := by
  induction k generalizing c with
  | zero =>
    rw [call, token]
    cases h : c.lexeme? with
    | none => simp [lexemes_eq_nil h]
    | some found => simp [lexemes_eq_cons h]
  | succ k ih =>
    -- Only the end of the text is needed of the first call: it is the same for all later ones.
    obtain ⟨taken, htaken, _⟩ := @token_holds c.pos [] c (by simp [Pos.behind])
    rw [call, ih, htaken.finish_eq, token]
    cases h : c.lexeme? with
    | none =>
      have hend : c.toEnd.lexemes = [] := lexemes_eq_nil rfl
      simp [lexemes_eq_nil h, hend]
    | some found => simp [lexemes_eq_cons h]

/-- What is answered before the end of input is left to be read. -/
theorem mem_lexemes_of_call {c : Cursor} {k : Nat} {token : Token} (h : c.call k = .ok token)
    (hend : token.kind ≠ .endOfInput) : .ok token ∈ c.lexemes.map (·.1) := by
  rw [call_eq] at h
  cases hget : (c.lexemes.map (·.1))[k]? with
  | none =>
    rw [hget] at h
    cases h
    exact absurd rfl hend
  | some found =>
    rw [hget] at h
    obtain rfl : found = .ok token := h
    exact List.mem_of_getElem? hget

end Cursor

/-- The lookahead behind `n` calls for a token and one more, which was answered with its current
token. What is ahead is what the calls from then on answer. -/
structure Lookahead.Behind (c : Cursor) (n : Nat) (s : Lookahead) : Prop where
  taken : s.taken = n + 1
  current : c.call n = .ok s.current
  ahead : ∀ k, s.ahead[k]?.getD (.ok ⟨.endOfInput, s.finish⟩) = c.call (n + 1 + k)

namespace Lookahead.Behind
variable {c : Cursor} {n : Nat} {s s' : Lookahead} {us : List Token}

private theorem advance (h : s.Behind c n) (hadvance : Reader.advance s = .ok () s') :
    s'.Behind c (n + 1) := by
  have hnext := h.ahead 0
  have hrest (k : Nat) := h.ahead (k + 1)
  obtain ⟨hahead, rfl⟩ | ⟨token, rest, hahead, rfl⟩ := Reader.advance_cases hadvance
  · simp only [hahead, List.getElem?_nil, Option.getD_none] at hnext hrest
    exact ⟨congrArg (· + 1) h.taken, hnext.symm, fun k => by
      rw [Nat.add_right_comm]; exact hrest k⟩
  · simp only [hahead, List.getElem?_cons_zero, List.getElem?_cons_succ, Option.getD_some]
      at hnext hrest
    exact ⟨congrArg (· + 1) h.taken, hnext.symm, fun k => by
      rw [Nat.add_right_comm]; exact hrest k⟩

theorem fault (h : s.Behind c n) {e : SyntaxError} (hadvance : Reader.advance s = .error e s') :
    ∃ fault, e = .lexical fault ∧ c.call (n + 1) = .error fault ∧ s'.taken = n + 2 := by
  obtain ⟨fault, rest, hahead, rfl, rfl⟩ := Reader.advance_eq_error_iff.mp hadvance
  have hnext := h.ahead 0
  rw [hahead] at hnext
  exact ⟨fault, rfl, hnext.symm, congrArg (· + 1) h.taken⟩

/-- Tokens that are passed were answered one after the other. -/
theorem passes (h : s.Behind c n) (hpass : Passes s us s') :
    s'.Behind c (n + us.length) ∧
      ∀ k u, us[k]? = some u → u.kind ≠ .endOfInput ∧ c.call (n + k) = .ok u := by
  induction hpass generalizing n with
  | refl => exact ⟨h, by simp⟩
  | @step s _ _ ts hend hadvance _ ih =>
    obtain ⟨hlast, hcalls⟩ := ih (h.advance hadvance)
    rw [Nat.add_assoc, Nat.add_comm 1] at hlast
    refine ⟨hlast, fun k u hu => ?_⟩
    cases k with
    | zero =>
      cases hu
      exact ⟨hend, h.current⟩
    | succ k =>
      obtain ⟨hne, hcall⟩ := hcalls k u hu
      rw [Nat.add_assoc, Nat.add_comm 1] at hcall
      exact ⟨hne, hcall⟩

end Lookahead.Behind

theorem behind_of_begin? {text : String} {s : Lookahead} (h : begin? text = .ok s) :
    s.Behind (.ofText text .start) 0 := by
  have hcall := (Cursor.ofText text .start).call_eq
  rw [begin?_eq_ok_iff, Lookahead.ofText, Lookahead.ofCursor] at h
  generalize (Cursor.ofText text .start).lexemes.map (·.1) = found at h hcall
  cases found with
  | nil =>
    cases h
    exact ⟨rfl, hcall 0, fun k => (hcall (0 + 1 + k)).symm⟩
  | cons first rest =>
    cases first with
    | ok t =>
      cases h
      refine ⟨rfl, hcall 0, fun k => ?_⟩
      rw [hcall, Nat.add_comm, List.getElem?_cons_succ]
    | error e => cases h

theorem call_of_begin?_eq_error {text : String} {e : SyntaxError} (h : begin? text = .error e) :
    ∃ fault, e = .lexical fault ∧ (Cursor.ofText text .start).call 0 = .error fault := by
  have hcall := (Cursor.ofText text .start).call_eq 0
  rw [begin?, Lookahead.ofText, Lookahead.ofCursor] at h
  generalize (Cursor.ofText text .start).lexemes.map (·.1) = found at h hcall
  cases found with
  | nil => cases h
  | cons first rest =>
    cases first with
    | ok t => cases h
    | error fault =>
      cases h
      exact ⟨fault, rfl, hcall⟩

end ExprLang
