import ExprLang.Proofs.Reading.Acceptance
import ExprLang.Proofs.Reading.InStep

/-! Of the strengths of operators only their order matters, and only that of the operators that
stand in a text. -/
namespace ExprLang

/-- A token that is found before any fault. -/
def FoundFirst (found : List Lexed) (token : Token) : Prop :=
  ∃ (before : List Token) (more : List Lexed), found = before.map .ok ++ .ok token :: more

/-- A symbol of a text in front of its first fault. -/
def SymbolOf (text : String) (c : Char) : Prop :=
  ∃ pos, FoundFirst ((Cursor.ofText text .start).lexemes.map (·.1)) ⟨.symbol c, pos⟩

/-- Two tables have the same operators among some characters, and put them into the same order. -/
structure Table.SameOn (t u : Table) (chars : Char → Prop) : Prop where
  operator : ∀ c, chars c → (u.strength? c).isSome = (t.strength? c).isSome
  order : ∀ {c d : Char} {m n m' n' : Int}, chars c → chars d → t.strength? c = some m →
    t.strength? d = some n → u.strength? c = some m' → u.strength? d = some n' → (m' < n' ↔ m < n)

private theorem foundFirst_cons {token : Token} {found : List Lexed} :
    FoundFirst (.ok token :: found) token :=
  ⟨[], found, rfl⟩

private theorem FoundFirst.behind {token behind : Token} {found : List Lexed}
    (h : FoundFirst found token) :
    FoundFirst (.ok behind :: found) token := by
  obtain ⟨before, more, rfl⟩ := h
  exact ⟨behind :: before, more, rfl⟩

namespace Table
variable {t u : Table} {chars : Char → Prop}

private def Among (chars : Char → Prop) (token : Token) : Prop :=
  ∀ c, token.kind = .symbol c → chars c

private theorem SameOn.isOperator (h : t.SameOn u chars) {token : Token}
    (htoken : Among chars token) : u.isOperator token = t.isOperator token := by
  unfold Table.isOperator
  cases hk : token.kind with
  | symbol c => exact h.operator c (htoken c hk)
  | _ => rfl

private theorem SameOn.sameOrder (h : t.SameOn u chars) :
    SameOrder t.strength u.strength fun a => Among chars a ∧ t.isOperator a = true := by
  rintro a b ⟨ha, hopa⟩ ⟨hb, hopb⟩
  obtain ⟨c, m, hc, hm⟩ := isOperator_iff.mp hopa
  obtain ⟨d, n, hd, hn⟩ := isOperator_iff.mp hopb
  obtain ⟨_, m', hc', hm'⟩ := isOperator_iff.mp ((h.isOperator ha).trans hopa)
  obtain ⟨_, n', hd', hn'⟩ := isOperator_iff.mp ((h.isOperator hb).trans hopb)
  cases hc.symm.trans hc'
  cases hd.symm.trans hd'
  have hlt := h.order (hb d hd) (ha c hc) hn hm hn' hm'
  simp only [Table.strength, hc, hd, hm, hn, hm', hn', Option.getD_some]
  omega

private def SameOn.inStep (h : t.SameOn u chars) (ht : t.Legal) (hu : u.Legal) : InStep where
  first := t
  second := u
  first_legal := ht
  second_legal := hu
  known := Among chars
  isOperator _ htoken := h.isOperator htoken
  sameOrder := h.sameOrder
  move := id
  goesOn := False
  Rel s s' := s' = s ∧ Among chars s.current ∧ ∀ token, FoundFirst s.ahead token → Among chars token
  current := by
    rintro _ s ⟨rfl, hcurrent, _⟩
    exact .inl ⟨hcurrent, rfl⟩
  advance := by
    rintro _ s ⟨rfl, _, hfound⟩ _
    cases hahead : s.ahead with
    | nil =>
      rw [Reader.advance_end hahead]
      exact .ok trivial ⟨rfl, nofun, fun token h => hfound token (by rwa [hahead])⟩
    | cons found rest =>
      cases found with
      | ok token =>
        rw [Reader.advance_token hahead]
        refine .ok trivial ⟨rfl, hfound token ?_, fun next hnext => hfound next ?_⟩
        · rw [hahead]
          exact foundFirst_cons
        · rw [hahead]
          exact hnext.behind
      | error fault =>
        rw [Reader.advance_fault hahead]
        exact .error fun h => absurd rfl (h fault)

private theorem SameOn.rel_begin {text : String} (h : t.SameOn u (SymbolOf text)) (ht : t.Legal)
    (hu : u.Legal) {s : Lookahead} (hbegin : begin? text = .ok s) : (h.inStep ht hu).Rel s s := by
  have hsymbols (token : Token) (hfound : FoundFirst
      ((Cursor.ofText text .start).lexemes.map (·.1)) token) : Among (SymbolOf text) token := by
    obtain ⟨kind, pos⟩ := token
    rintro c rfl
    exact ⟨pos, hfound⟩
  rw [begin?_eq] at hbegin
  generalize (Cursor.ofText text .start).lexemes.map (·.1) = found at hbegin hsymbols
  cases found with
  | nil =>
    cases hbegin
    exact ⟨rfl, nofun, hsymbols⟩
  | cons first rest =>
    cases first with
    | ok token =>
      cases hbegin
      exact ⟨rfl, hsymbols token foundFirst_cons, fun next hnext => hsymbols next hnext.behind⟩
    | error fault => cases hbegin

end Table

/-- Tables that agree on the symbols of a text read it in the same way: as the same items or the
same expression, with the same places, or with the same error. -/
theorem parse_sameOn {t u : Table} (ht : t.Legal) (hu : u.Legal) (levels : Nat) {text : String}
    (h : t.SameOn u (SymbolOf text)) :
    parse u levels text = parse t levels text ∧
      parseExpression u levels text = parseExpression t levels text := by
  cases hbegin : begin? text with
  | error e =>
    simp only [parse_of_begin_error hbegin, parseExpression_of_begin_error hbegin, and_self]
  | ok s =>
    have hrel := h.rel_begin ht hu hbegin
    constructor
    · have hends := InStep.within_ends levels _ _ hrel (fun _ => Nat.lt_succ_self _)
        fun _ => Nat.lt_succ_self _
      rw [parse_of_begin hbegin, parse_of_begin hbegin]
      refine (hends.result id).trans ?_
      change ((Progress.ofLookahead (.ofTable t) levels s).result.map
        (List.map (Item.moved id))).mapError (SyntaxError.moved id) = _
      cases (Progress.ofLookahead (.ofTable t) levels s).result with
      | ok items => exact congrArg Except.ok (Item.map_moved_id items)
      | error e => exact congrArg Except.error e.moved_id
    · have hread : (h.inStep ht hu).Alike _ (Reader.expression (.ofTable t) levels s)
          (Reader.expression (.ofTable u) levels s) := InStep.expression_keeps levels hrel
      rw [parseExpression_of_begin hbegin, parseExpression_of_begin hbegin]
      generalize Reader.expression (.ofTable t) levels s = r at hread
      generalize Reader.expression (.ofTable u) levels s = r' at hread
      cases hread with
      | @ok e _ s1 _ hvalue hrel1 =>
        obtain ⟨rfl, _⟩ := hrel1
        obtain rfl := hvalue.trans e.moved_id
        rfl
      | @error e => exact congrArg Except.error e.moved_id
      | wanting hgoes _ _ => exact hgoes.elim

/-- The tables order `*` and `-` alike. That one of them lacks `+` does not matter, nor does another
operator between the two. -/
theorem parse_sameOn_differenceProduct :
    parse ⟨[('*', 7), ('&', 6), ('-', 5)]⟩ 2 "a-b*c" = parse .standard 2 "a-b*c" ∧
      parseExpression ⟨[('*', 7), ('&', 6), ('-', 5)]⟩ 2 "a-b*c" =
        parseExpression .standard 2 "a-b*c" := by
  have hlegal : Table.Legal ⟨[('*', 7), ('&', 6), ('-', 5)]⟩ :=
    ⟨by decide, by decide +kernel, by decide⟩
  have hlexemes : (Cursor.ofText "a-b*c" .start).lexemes.map (·.1) =
      [.ok ⟨.identifier "a", ⟨1, 1⟩⟩, .ok ⟨.symbol '-', ⟨1, 2⟩⟩, .ok ⟨.identifier "b", ⟨1, 3⟩⟩,
        .ok ⟨.symbol '*', ⟨1, 4⟩⟩, .ok ⟨.identifier "c", ⟨1, 5⟩⟩] := by cbv
  have hsymbol (c : Char) (h : SymbolOf "a-b*c" c) : c = '-' ∨ c = '*' := by
    obtain ⟨pos, before, more, hfound⟩ := h
    have hmem : Except.ok ⟨.symbol c, pos⟩ ∈ (Cursor.ofText "a-b*c" .start).lexemes.map (·.1) := by
      simp [hfound]
    have hc : c = '-' ∧ pos = ⟨1, 2⟩ ∨ c = '*' ∧ pos = ⟨1, 4⟩ := by simpa [hlexemes] using hmem
    exact hc.imp And.left And.left
  refine parse_sameOn Table.standard_legal hlegal 2 ⟨fun c hc => ?_, ?_⟩
  · rcases hsymbol c hc with rfl | rfl <;> rfl
  · intro c d m n m' n' hc hd hm hn hm' hn'
    rcases hsymbol c hc with rfl | rfl <;> rcases hsymbol d hd with rfl | rfl <;>
      cases hm <;> cases hn <;> cases hm' <;> cases hn' <;> decide

end ExprLang
