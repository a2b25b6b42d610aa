import ExprLang.Proofs.Reading.Begin

/-! The tokens that reading may come to: those that are left, up to the first fault. Whatever is
passed is taken from the front of them. -/
namespace ExprLang

/-- The tokens in front of the first fault and of the end of input. -/
def upcoming : List Lexed → List Token
  | .ok token :: rest => if token.kind = .endOfInput then [] else token :: upcoming rest
  | _ => []

/-- The tokens from the current one on, up to the first fault. -/
def Lookahead.tokens (s : Lookahead) : List Token := upcoming (.ok s.current :: s.ahead)

/-- The tokens of a text up to the first fault. -/
def leadingTokens (text : String) : List Token :=
  upcoming ((Cursor.ofText text .start).lexemes.map (·.1))

namespace Lookahead
variable {s s' : Lookahead}

theorem tokens_of_end (h : s.current.kind = .endOfInput) : s.tokens = [] := if_pos h

private theorem tokens_of_ne_end (h : s.current.kind ≠ .endOfInput) :
    s.tokens = s.current :: upcoming s.ahead := if_neg h

theorem length_tokens_le (s : Lookahead) : s.tokens.length ≤ s.ahead.length + 1 := by
  have hle (found : List Lexed) : (upcoming found).length ≤ found.length := by
    induction found with
    | nil => exact Nat.le_refl _
    | cons first rest ih =>
      cases first with
      | ok token =>
        rw [upcoming]
        split
        · exact Nat.zero_le _
        · exact Nat.succ_le_succ ih
      | error fault => exact Nat.zero_le _
  exact hle _

/-- Only the current token can come first. -/
theorem eq_current_of_mem_head? {token : Token} (h : token ∈ s.tokens.head?) :
    token = s.current := by
  by_cases hend : s.current.kind = .endOfInput
  · rw [tokens_of_end hend] at h
    cases h
  · rw [tokens_of_ne_end hend] at h
    cases h
    rfl

private theorem tokens_advance (hend : s.current.kind ≠ .endOfInput)
    (hadvance : Reader.advance s = .ok () s') : s.tokens = s.current :: s'.tokens := by
  rw [tokens_of_ne_end hend]
  obtain ⟨hahead, rfl⟩ | ⟨token, rest, hahead, rfl⟩ := Reader.advance_cases hadvance
  · rw [hahead, tokens_of_end rfl]
    rfl
  · rw [hahead]
    rfl

/-- In front of a fault there is no other token than the current one. -/
theorem tokens_fault {e : SyntaxError} (hend : s.current.kind ≠ .endOfInput)
    (hadvance : Reader.advance s = .error e s') : s.tokens = [s.current] := by
  obtain ⟨fault, rest, hahead, _⟩ := Reader.advance_eq_error_iff.mp hadvance
  rw [tokens_of_ne_end hend, hahead]
  rfl

end Lookahead

/-- What is passed are the first of the tokens. -/
theorem Passes.tokens_eq {s s' : Lookahead} {ts : List Token} (h : Passes s ts s') :
    s.tokens = ts ++ s'.tokens := by
  induction h with
  | refl => rfl
  | step hend hadvance _ ih => rw [Lookahead.tokens_advance hend hadvance, ih, List.cons_append]

/-- Every token that is passed has been asked for. -/
theorem Passes.taken_eq {s s' : Lookahead} {ts : List Token} (h : Passes s ts s') :
    s'.taken = s.taken + ts.length := by
  induction h with
  | refl => rfl
  | step _ hadvance _ ih =>
    rw [ih, List.length_cons]
    obtain ⟨_, rfl⟩ | ⟨_, _, _, rfl⟩ := Reader.advance_cases hadvance <;> exact Nat.add_right_comm _ _ _

/-- Reading a text begins with all of its tokens left. -/
theorem tokens_of_begin? {text : String} {s : Lookahead} (h : begin? text = .ok s) :
    s.tokens = leadingTokens text ∧ s.taken = 1 := by
  rw [begin?_eq] at h
  rw [leadingTokens]
  split at h
  · rename_i hfound
    cases h
    rw [hfound]
    exact ⟨rfl, rfl⟩
  · rename_i hfound
    cases h
    rw [hfound]
    exact ⟨rfl, rfl⟩
  · cases h

end ExprLang
