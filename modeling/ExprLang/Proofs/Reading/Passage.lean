import ExprLang.Reader.Lookahead

/-! How readers move a lookahead over tokens. -/
namespace ExprLang

namespace Reader
variable {s s' : Lookahead}

/-- Moving on takes the next token, or the end of input if nothing is ahead. -/
theorem advance_cases (h : advance s = .ok () s') :
    (s.ahead = [] ∧ s' = ⟨⟨.endOfInput, s.finish⟩, [], s.finish, s.taken + 1⟩) ∨
      ∃ token rest, s.ahead = .ok token :: rest ∧ s' = ⟨token, rest, s.finish, s.taken + 1⟩ := by
  cases hahead : s.ahead with
  | nil =>
    rw [advance_end hahead] at h
    cases h
    exact .inl ⟨rfl, rfl⟩
  | cons found rest =>
    cases found with
    | ok token =>
      rw [advance_token hahead] at h
      cases h
      exact .inr ⟨token, rest, rfl, rfl⟩
    | error fault =>
      rw [advance_fault hahead] at h
      cases h

/-- Moving on fails at nothing but a fault, which is passed over. -/
theorem advance_eq_error_iff {e : SyntaxError} : advance s = .error e s' ↔
    ∃ fault rest, s.ahead = .error fault :: rest ∧ e = .lexical fault ∧
      s' = ⟨s.current, rest, s.finish, s.taken + 1⟩ := by
  constructor
  · intro h
    cases hahead : s.ahead with
    | nil =>
      rw [advance_end hahead] at h
      cases h
    | cons found rest =>
      cases found with
      | ok token =>
        rw [advance_token hahead] at h
        cases h
      | error fault =>
        rw [advance_fault hahead] at h
        cases h
        exact ⟨fault, rest, rfl, rfl, rfl⟩
  · rintro ⟨fault, rest, hahead, rfl, rfl⟩
    exact advance_fault hahead

/-- One token is taken from those ahead, unless there is only the end of input. -/
theorem advance_ahead (h : advance s = .ok () s') :
    (s.ahead = [] ∧ s'.ahead = [] ∧ s'.current.kind = .endOfInput) ∨
      s.ahead.length = s'.ahead.length + 1 := by
  obtain ⟨hahead, rfl⟩ | ⟨token, rest, hahead, rfl⟩ := advance_cases h
  · exact .inl ⟨hahead, rfl, rfl⟩
  · exact .inr (congrArg List.length hahead)

end Reader

/-- The lookahead moves over some tokens, none of which is the end of input. -/
inductive Passes : Lookahead → List Token → Lookahead → Prop
  | refl (s : Lookahead) : Passes s [] s
  | step {s s' s'' : Lookahead} {ts : List Token} (hend : s.current.kind ≠ .endOfInput)
      (hadvance : Reader.advance s = .ok () s') (hrest : Passes s' ts s'') :
      Passes s (s.current :: ts) s''

namespace Passes
variable {s s' s'' : Lookahead} {t : Token} {ts us : List Token}

theorem one (hend : s.current.kind ≠ .endOfInput) (hadvance : Reader.advance s = .ok () s') :
    Passes s [s.current] s' := .step hend hadvance (.refl s')

theorem append (h : Passes s ts s') (h' : Passes s' us s'') : Passes s (ts ++ us) s'' := by
  induction h with
  | refl => exact h'
  | step hend hadvance _ ih => exact .step hend hadvance (ih h')

theorem cons_iff : Passes s (t :: ts) s'' ↔
    s.current = t ∧ t.kind ≠ .endOfInput ∧ ∃ s', Reader.advance s = .ok () s' ∧ Passes s' ts s'' := by
  constructor
  · rintro (_ | ⟨hend, hadvance, hrest⟩)
    exact ⟨rfl, hend, _, hadvance, hrest⟩
  · rintro ⟨rfl, hend, s', hadvance, hrest⟩
    exact .step hend hadvance hrest

theorem nil_iff : Passes s [] s' ↔ s = s' := by
  constructor
  · rintro ⟨⟩
    rfl
  · rintro rfl
    exact .refl s

theorem append_iff : Passes s (ts ++ us) s'' ↔ ∃ s', Passes s ts s' ∧ Passes s' us s'' := by
  constructor
  · intro h
    induction ts generalizing s with
    | nil => exact ⟨s, .refl s, h⟩
    | cons t ts ih =>
      obtain ⟨rfl, hend, s1, hadvance, hrest⟩ := cons_iff.mp h
      obtain ⟨s', h1, h2⟩ := ih hrest
      exact ⟨s', .step hend hadvance h1, h2⟩
  · rintro ⟨s', h1, h2⟩
    exact h1.append h2

theorem current_eq (h : Passes s (t :: ts) s') : s.current = t := (cons_iff.mp h).1

/-- Every token that is passed is taken from those ahead, but for the first. -/
theorem length_ahead (h : Passes s ts s') :
    s'.ahead.length = s.ahead.length - ts.length ∧ ts.length ≤ s.ahead.length + 1 := by
  induction h with
  | refl => simp
  | @step s s' s'' ts hend hadvance hrest ih =>
    rcases Reader.advance_ahead hadvance with ⟨hs, hs', hcurrent⟩ | hlen
    · have hts : ts = [] := by
        cases hrest with
        | refl => rfl
        | step hend' _ _ => exact absurd hcurrent hend'
      subst hts
      simpa [hs, hs'] using ih.1
    · rw [List.length_cons]
      omega

/-- Whoever passes something and is not at the end of input has less ahead. -/
theorem ahead_lt (h : Passes s ts s') (hts : ts ≠ []) (hend : s'.current.kind ≠ .endOfInput) :
    s'.ahead.length < s.ahead.length := by
  cases h with
  | refl => exact absurd rfl hts
  | @step _ s1 _ us _ hadvance hrest =>
    rcases Reader.advance_ahead hadvance with ⟨_, _, hcurrent⟩ | hlen
    · cases hrest with
      | refl => exact absurd hcurrent hend
      | step hend' _ _ => exact absurd hcurrent hend'
    · have := hrest.length_ahead
      omega

/-- What is ahead after a passage was ahead before it. -/
theorem suffix_ahead (h : Passes s ts s') : s'.ahead <:+ s.ahead := by
  induction h with
  | refl => exact List.suffix_refl _
  | step _ hadvance _ ih =>
    refine ih.trans ?_
    obtain ⟨hahead, rfl⟩ | ⟨token, rest, hahead, rfl⟩ := Reader.advance_cases hadvance
    · exact List.nil_suffix
    · rw [hahead]
      exact List.suffix_cons _ _

/-- Every way goes along the one to the end of input. -/
theorem prefix_of_end (h : Passes s ts s') (hend : s'.current.kind = .endOfInput)
    (h' : Passes s us s'') : us <+: ts := by
  induction h' generalizing ts with
  | refl => exact List.nil_prefix
  | step hne hadvance' _ ih =>
    cases h with
    | refl => exact absurd hend hne
    | step _ hadvance hrest =>
      cases hadvance.symm.trans hadvance'
      exact List.cons_prefix_cons.mpr ⟨rfl, ih hrest⟩

/-- Two ways that both end at the end of input are the same. -/
theorem unique (h : Passes s ts s') (hend : s'.current.kind = .endOfInput) (h' : Passes s us s'')
    (hend' : s''.current.kind = .endOfInput) : ts = us ∧ s' = s'' := by
  induction h generalizing us with
  | refl s =>
    cases h' with
    | refl => exact ⟨rfl, rfl⟩
    | step hne _ _ => exact absurd hend hne
  | step hne hadvance _ ih =>
    cases h' with
    | refl => exact absurd hend' hne
    | step _ hadvance' hrest =>
      cases hadvance.symm.trans hadvance'
      obtain ⟨rfl, rfl⟩ := ih hend hrest
      exact ⟨rfl, rfl⟩

end Passes

/-- The lookahead at the first of some tokens, without any fault behind them. -/
def Lookahead.ofTokens (finish : Pos) (taken : Nat) : List Token → Lookahead
  | [] => ⟨⟨.endOfInput, finish⟩, [], finish, taken⟩
  | t :: ts => ⟨t, ts.map .ok, finish, taken⟩

section
variable {finish : Pos} {taken : Nat} {s : Lookahead} {t : Token} {ts us : List Token}

@[simp] theorem Lookahead.ofTokens_taken : (ofTokens finish taken ts).taken = taken := by
  cases ts <;> rfl

private theorem Reader.advance_ofTokens :
    advance (.ofTokens finish taken (t :: ts)) = .ok () (.ofTokens finish (taken + 1) ts) := by
  cases ts <;> rfl

/-- Tokens are passed one after the other. -/
theorem Passes.ofTokens (taken : Nat) (hts : ∀ t ∈ ts, t.kind ≠ .endOfInput) :
    Passes (.ofTokens finish taken (ts ++ us)) ts (.ofTokens finish (taken + ts.length) us) := by
  induction ts generalizing taken with
  | nil => exact .refl _
  | cons t ts ih =>
    have hrest := ih (taken + 1) fun u hu => hts u (List.mem_cons_of_mem t hu)
    rw [Nat.add_assoc, Nat.add_comm 1] at hrest
    exact .step (hts t (by simp)) Reader.advance_ofTokens hrest

/-- What is passed are the first of the tokens, and the others are left. -/
theorem Passes.exists_ofTokens (h : Passes (.ofTokens finish taken ts) us s) :
    ∃ rest, ts = us ++ rest ∧ s = .ofTokens finish (taken + us.length) rest := by
  induction us generalizing taken ts with
  | nil => exact ⟨ts, rfl, (nil_iff.mp h).symm⟩
  | cons u us ih =>
    obtain ⟨hcurrent, hend, s1, hadvance, hrest⟩ := cons_iff.mp h
    cases ts with
    | nil =>
      subst hcurrent
      exact absurd rfl hend
    | cons t ts =>
      obtain rfl : t = u := hcurrent
      cases hadvance.symm.trans Reader.advance_ofTokens
      obtain ⟨rest, rfl, rfl⟩ := ih hrest
      refine ⟨rest, rfl, ?_⟩
      rw [List.length_cons, Nat.add_right_comm, Nat.add_assoc]

end

namespace Reader
variable {α β : Type}

theorem bind_eq_ok_iff {x : Reader α} {f : α → Reader β} {s s'' : Lookahead} {b : β} :
    (x >>= f) s = .ok b s'' ↔ ∃ a s', x s = .ok a s' ∧ f a s' = .ok b s'' := by
  rw [bind_apply]
  cases x s <;> simp [and_assoc]

theorem bind_eq_error_iff {x : Reader α} {f : α → Reader β} {s s'' : Lookahead} {e : SyntaxError} :
    (x >>= f) s = .error e s'' ↔
      x s = .error e s'' ∨ ∃ a s', x s = .ok a s' ∧ f a s' = .error e s'' := by
  rw [bind_apply]
  cases x s <;> simp [and_assoc]

theorem advance_bind_eq_ok_iff {f : Unit → Reader β} {s s'' : Lookahead} {b : β} :
    (advance >>= f) s = .ok b s'' ↔ ∃ s', advance s = .ok () s' ∧ f () s' = .ok b s'' := by
  rw [bind_eq_ok_iff]
  exact ⟨fun ⟨_, s', h⟩ => ⟨s', h⟩, fun ⟨s', h⟩ => ⟨(), s', h⟩⟩

/-- Passing a result on changes nothing but the result. -/
theorem bind_pure_eq_ok_iff {x : Reader α} {f : α → β} {s s' : Lookahead} {b : β} :
    (x >>= fun a => pure (f a)) s = .ok b s' ↔ ∃ a, x s = .ok a s' ∧ b = f a := by
  rw [bind_eq_ok_iff]
  constructor
  · rintro ⟨a, _, hx, h⟩
    cases h
    exact ⟨a, hx, rfl⟩
  · rintro ⟨a, hx, rfl⟩
    exact ⟨a, s', hx, rfl⟩

theorem bind_pure_eq_error_iff {x : Reader α} {f : α → β} {s s' : Lookahead} {e : SyntaxError} :
    (x >>= fun a => pure (f a)) s = .error e s' ↔ x s = .error e s' := by
  rw [bind_apply]
  cases x s <;> simp [pure_apply]

theorem current_bind (f : Token → Reader β) (s : Lookahead) :
    (current >>= f) s = f s.current s := rfl

theorem left_bind (f : Nat → Reader β) (s : Lookahead) :
    (left >>= f) s = f (s.ahead.length + 1) s := rfl

theorem pure_eq_ok_iff {a b : α} {s s' : Lookahead} :
    (pure a : Reader α) s = .ok b s' ↔ a = b ∧ s = s' := by
  simp [pure_apply]

private theorem hasType_singleton (t : Token) (c : Char) :
    t.hasType (String.singleton c) = t.isSymbol c := by
  obtain ⟨kind, pos⟩ := t
  rw [Bool.eq_iff_iff]
  cases kind <;> simp [Token.hasType, Token.isSymbol, TokenKind.typeName, String.ext_iff]

theorem opening_eq_singleton : "(" = String.singleton '(' := rfl

theorem closing_eq_singleton : ")" = String.singleton ')' := rfl

/-- Expecting a bracket takes it and nothing else. -/
theorem expect_bind {type : String} {c : Char} (htype : type = String.singleton c)
    (missing : Missing) (f : Token → Reader β) (s : Lookahead) : (expect type missing >>= f) s =
      if s.current.isSymbol c then (advance >>= fun _ => f s.current) s else fail missing s := by
  rw [expect, bind_assoc, current_bind, htype, hasType_singleton]
  split
  · simp only [bind_assoc, pure_bind]
  · rfl

theorem expect_bind_eq_ok_iff {type : String} {c : Char} (htype : type = String.singleton c)
    {missing : Missing} {f : Token → Reader β} {s s'' : Lookahead} {b : β} :
    (expect type missing >>= f) s = .ok b s'' ↔ s.current.isSymbol c = true ∧
      ∃ s', advance s = .ok () s' ∧ f s.current s' = .ok b s'' := by
  rw [expect_bind htype]
  split
  · rename_i h
    rw [advance_bind_eq_ok_iff]
    exact (and_iff_right h).symm
  · rename_i h
    simp [fail, h]

/-- A reader succeeds on the phrases of a kind and on nothing else. It leaves the lookahead behind
the phrase, where it has checked what follows. -/
def Reads (x : Reader α) (phrase : List Token → α → Prop) (follow : List Token → Token → Prop) :
    Prop :=
  ∀ s a s', x s = .ok a s' ↔ ∃ ts, Passes s ts s' ∧ phrase ts a ∧ follow ts s'.current

end Reader
end ExprLang
