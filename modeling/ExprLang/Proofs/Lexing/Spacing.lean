import ExprLang.Proofs.Lexing.Cut

/-! Tokens that are written one after the other with white space and comments between them are read
as the same tokens. -/
namespace ExprLang

/-- White space and comments, each of which is closed by a line feed. -/
inductive Spacing : List Char → Prop
  | nil : Spacing []
  | blank {c : Char} {cs : List Char} (hblank : Text.isBlank c = true) (h : Spacing cs) :
      Spacing (c :: cs)
  | comment {body cs : List Char} (hbody : ∀ c ∈ body, c ≠ '\n') (h : Spacing cs) :
      Spacing ('#' :: (body ++ '\n' :: cs))

/-- How a token is written: a number in plain form, and all others by the text they stand for. -/
def Token.spelling (t : Token) : String :=
  match t.kind with
  | .number value => value.plainText
  | _ => t.valueText

/-- Tokens one after the other, the first one behind the first gap and so on. A last gap ends the
text. -/
def spaced (gap : Nat → List Char) : List Token → List Char
  | [] => gap 0
  | t :: ts => gap 0 ++ (t.spelling.toList ++ spaced (fun k => gap (k + 1)) ts)

variable {gap rest : List Char}

theorem Spacing.trivia (h : Spacing gap) (rest : List Char) : Trivia rest gap := by
  induction h with
  | nil => exact .nil
  | blank hblank _ ih => exact .blank hblank ih
  | comment hbody _ ih =>
    refine .comment hbody (fun c hc => ?_) (.blank Text.isBlank_lineFeed ih)
    cases hc
    rfl

/-- A gap ends the token in front of it. If there is none, what follows has to. -/
theorem Spacing.parts (h : Spacing gap) (hrest : gap = [] → Parts rest) : Parts (gap ++ rest) := by
  cases h with
  | nil => exact hrest rfl
  | @blank c cs hblank _ =>
    refine parts_cons (Text.isWordPart_of_isBlank hblank) ?_
    rw [Bool.eq_false_iff]
    intro hnumber
    exact absurd hblank (by simp [(Text.of_isNumberPart hnumber).2.1])
  | comment _ _ => exact parts_cons (by decide +kernel) (by decide)

private theorem Scans.trivia {kinds : List TokenKind} (hgap : Trivia rest gap)
    (h : Scans rest kinds) :
    Scans (gap ++ rest) kinds := by
  intro pos
  rw [Cursor.lexemes_gap hgap]
  exact h _

/-- What can be found in a text is found where it is written. -/
theorem Token.spells {t : Token} (h : t.kind.Lexable) : Spells t.spelling [t.kind] := by
  obtain ⟨kind, pos⟩ := t
  intro rest more hstop hrest
  cases kind with
  | defKeyword => exact spells_def rest more hstop hrest
  | externKeyword => exact spells_extern rest more hstop hrest
  | identifier name => exact hrest.identifier h hstop
  | number value =>
    obtain ⟨index, rfl⟩ := h
    simpa [spelling, Double.plainText, Double.signText] using hrest.number index hstop
  | symbol c => simpa [spelling, valueText, TokenKind.value, Value.shown] using hrest.symbol h
  | endOfInput => exact absurd h id

/-- Tokens of a text are found again if there is a gap between any two of them. -/
theorem scans_spaced {gap : Nat → List Char} {ts : List Token} (hts : ∀ t ∈ ts, t.kind.Lexable)
    (hgap : ∀ k, Spacing (gap k)) (hbetween : ∀ k, 0 < k → k < ts.length → gap k ≠ []) :
    Scans (spaced gap ts) (ts.map Token.kind) := by
  induction ts generalizing gap with
  | nil =>
    have hend := Scans.nil.trivia ((hgap 0).trivia [])
    rwa [List.append_nil] at hend
  | cons t ts ih =>
    obtain ⟨ht, hts⟩ := List.forall_mem_cons.mp hts
    have hrest := @ih (fun k => gap (k + 1)) hts (fun k => hgap (k + 1)) fun k hk hlt =>
      hbetween (k + 1) (Nat.succ_pos k) (Nat.succ_lt_succ hlt)
    have hparts : Parts (spaced (fun k => gap (k + 1)) ts) := by
      cases ts with
      | nil =>
        have hlast := (hgap 1).parts fun _ => parts_nil
        rwa [List.append_nil] at hlast
      | cons u us =>
        exact (hgap 1).parts fun hnil => absurd hnil (hbetween 1 Nat.one_pos (by simp))
    exact (t.spells ht _ _ hparts hrest).trivia ((hgap 0).trivia _)

end ExprLang
