import ExprLang.Proofs.Reading.Acceptance
import ExprLang.Proofs.Reading.InStep
import ExprLang.Proofs.Reading.Message

/-! Two programs with a semicolon on a line between them. The semicolon ends the first program as
the end of input does, and the second one is read as if it stood alone, but some lines further
down. -/
namespace ExprLang

variable {t : Table} {levels : Nat}

/-- A lookahead and another one some lines further down. -/
structure Lookahead.Below (move : Pos → Pos) (s s' : Lookahead) : Prop where
  current : s'.current = s.current.moved move
  ahead : s'.ahead = s.ahead.map (movedLexed move)
  finish : s'.finish = move s.finish

/-- A lookahead over a text, and one over a text that goes on behind it with a semicolon. -/
inductive Lookahead.Continued (semi : Token) (more : List Lexed) (finish : Pos) :
    Lookahead → Lookahead → Prop
  | within {token : Token} {ahead : List Lexed} {stop : Pos} {taken taken' : Nat}
      (hend : token.kind ≠ .endOfInput) (hahead : ∀ u, .ok u ∈ ahead → u.kind ≠ .endOfInput) :
      Continued semi more finish ⟨token, ahead, stop, taken⟩
        ⟨token, ahead ++ .ok semi :: more, finish, taken'⟩
  | behind {pos stop : Pos} {taken taken' : Nat} :
      Continued semi more finish ⟨⟨.endOfInput, pos⟩, [], stop, taken⟩ ⟨semi, more, finish, taken'⟩

namespace InStep

/-- The same text is read in step, wherever it begins. -/
def below (t : Table) (ht : t.Legal) (move : Pos → Pos) : InStep :=
  .ofTable t ht move False (Lookahead.Below move) (fun h => .inl h.current) <| by
    rintro ⟨token, ahead, finish, taken⟩ ⟨_, _, _, taken'⟩ ⟨rfl, rfl, rfl⟩ _
    match ahead with
    | [] => exact .ok trivial ⟨rfl, rfl, rfl⟩
    | .ok next :: rest => exact .ok trivial ⟨rfl, rfl, rfl⟩
    | .error fault :: rest => exact .error fun h => absurd rfl (h fault)

private def continued (t : Table) (ht : t.Legal) {semi : Token} (hsemi : semi.isSymbol ';' = true)
    (more : List Lexed) (finish : Pos) : InStep :=
  .ofTable t ht id True (Lookahead.Continued semi more finish)
    (by
      rintro _ _ (_ | _)
      · exact .inl rfl
      · exact .inr ⟨trivial, rfl, hsemi⟩) <| by
    intro s s' h hend
    cases h with
    | @within _ ahead _ _ _ _ hahead =>
      match ahead with
      | [] => exact .ok trivial .behind
      | .ok next :: rest =>
        exact .ok trivial (.within (hahead next (by simp)) fun u hu => hahead u (by simp [hu]))
      | .error fault :: rest => exact .error fun h => absurd rfl (h fault)
    | behind => exact absurd rfl hend

end InStep

/-- The lines above the second of two texts with a semicolon on a line between them. -/
def linesAbove (a : String) : Int := a.toList.count '\n' + 2

namespace Cursor

private theorem toList_separated (a b : String) :
    (a ++ "\n;\n" ++ b).toList = a.toList ++ '\n' :: ([';'] ++ '\n' :: b.toList) := by
  simp [String.toList_append]

private theorem afterAll_separated (a : String) :
    (Pos.start.afterAll (a.toList ++ ['\n'])).afterAll ([';'] ++ ['\n']) =
      Pos.start.down (linesAbove a) := by
  rw [Pos.afterAll_line]
  simp [Pos.after, Pos.down, Pos.start, linesAbove, Int.add_assoc]

/-- The tokens of the second text are found some lines further down. -/
theorem lexemes_separated (a b : String) : (ofText (a ++ "\n;\n" ++ b) .start).lexemes.map (·.1) =
    (ofText a .start).lexemes.map (·.1) ++
      .ok ⟨.symbol ';', Pos.start.down (a.toList.count '\n' + 1)⟩ ::
        ((ofText b .start).lexemes.map (·.1)).map (movedLexed (Pos.down (linesAbove a))) := by
  have hfirst := lexemes_line (ofText a .start) ([';'] ++ '\n' :: b.toList)
  have hsecond := lexemes_line ⟨[';'], Pos.start.afterAll (a.toList ++ ['\n'])⟩ b.toList
  have hmoved := lexemes_moved (Pos.down_steady (linesAbove a)) (ofText b .start)
  have hsemi (pos : Pos) : (lexemes ⟨[';'], pos⟩).map (·.1) = [.ok ⟨.symbol ';', pos⟩] := by
    have hlexeme : lexeme? ⟨[';'], pos⟩ = some (.ok ⟨.symbol ';', pos⟩, ⟨[], pos.after ';'⟩) := by
      cbv
    rw [lexemes_eq_cons hlexeme, lexemes_eq_nil rfl]
    rfl
  rw [afterAll_separated] at hsecond
  rw [ofText, toList_separated]
  refine hfirst.trans (congrArg _ (hsecond.trans ?_))
  rw [hsemi, Pos.afterAll_line, ← hmoved]
  rfl

private theorem finish_separated (a b : String) : (ofText (a ++ "\n;\n" ++ b) .start).finish =
    (ofText b .start).finish.down (linesAbove a) := by
  have hlist : (a ++ "\n;\n" ++ b).toList =
      (a.toList ++ ['\n']) ++ ([';'] ++ ['\n']) ++ b.toList := by simp [String.toList_append]
  rw [finish, finish, (Pos.down_steady _).afterAll, ofText, hlist, Pos.afterAll_append,
    Pos.afterAll_append, afterAll_separated]
  rfl

end Cursor

private theorem begin_continued {a : String} (b : String) {s : Lookahead} (h : begin? a = .ok s) :
    ∃ s', begin? (a ++ "\n;\n" ++ b) = .ok s' ∧
      s.Continued ⟨.symbol ';', Pos.start.down (a.toList.count '\n' + 1)⟩
        (((Cursor.ofText b .start).lexemes.map (·.1)).map (movedLexed (Pos.down (linesAbove a))))
        ((Cursor.ofText b .start).finish.down (linesAbove a)) s' := by
  have hend {token : Token} (htoken : .ok token ∈ (Cursor.ofText a .start).lexemes.map (·.1)) :
      token.kind ≠ .endOfInput := by
    intro hk
    have hlexable := mem_lexemes a htoken
    rwa [hk] at hlexable
  rw [begin?_eq] at h
  rw [begin?_eq, Cursor.lexemes_separated, Cursor.finish_separated]
  cases hfound : (Cursor.ofText a .start).lexemes.map (·.1) with
  | nil =>
    simp only [hfound] at h
    cases h
    exact ⟨_, rfl, .behind⟩
  | cons first rest =>
    simp only [hfound] at h hend
    cases first with
    | ok token =>
      cases h
      exact ⟨_, rfl, .within (hend (by simp)) fun u hu => hend (by simp [hu])⟩
    | error fault => cases h

private theorem begin_fault {a : String} (b : String) {e : SyntaxError} (h : begin? a = .error e) :
    begin? (a ++ "\n;\n" ++ b) = .error e := by
  rw [begin?_eq] at h
  rw [begin?_eq, Cursor.lexemes_separated]
  cases hfound : (Cursor.ofText a .start).lexemes.map (·.1) with
  | nil =>
    simp only [hfound] at h
    cases h
  | cons first rest =>
    simp only [hfound] at h
    cases first with
    | ok token => cases h
    | error fault => exact h

private theorem result_behind (ht : t.Legal) {a b : String} {semi : Token}
    (hsemi : semi.isSymbol ';' = true) {n taken : Nat}
    (hn : ((Cursor.ofText b .start).lexemes.map (·.1)).length < n) :
    (Progress.within (.ofTable t) levels n ⟨semi, ((Cursor.ofText b .start).lexemes.map (·.1)).map
        (movedLexed (Pos.down (linesAbove a))), (Cursor.ofText b .start).finish.down (linesAbove a),
        taken⟩).result =
      ((parse t levels b).map (List.map (Item.moved (Pos.down (linesAbove a))))).mapError
        (SyntaxError.moved (Pos.down (linesAbove a))) := by
  obtain ⟨n, rfl⟩ := Nat.exists_eq_succ_of_ne_zero (Nat.ne_zero_of_lt hn)
  rw [Progress.within_succ _ _ (Token.ne_end_of_isSymbol hsemi), if_pos hsemi]
  have hbegin := begin?_eq b
  have hends {s s' : Lookahead} (hb : begin? b = .ok s)
      (hrel : s.Below (Pos.down (linesAbove a)) s')
      (hlength : s'.current.kind ≠ .endOfInput → s'.ahead.length < n) :
      (Progress.within (.ofTable t) levels n s').result =
        ((parse t levels b).map (List.map (Item.moved (Pos.down (linesAbove a))))).mapError
          (SyntaxError.moved (Pos.down (linesAbove a))) := by
    have hwithin := InStep.within_ends (w := .below t ht (Pos.down (linesAbove a))) levels _ n hrel
      (fun _ => Nat.lt_succ_self _) hlength
    rw [parse_of_begin hb]
    exact hwithin.result id
  cases hfound : (Cursor.ofText b .start).lexemes.map (·.1) with
  | nil =>
    simp only [hfound] at hbegin
    exact hends hbegin ⟨rfl, rfl, rfl⟩ fun h => absurd rfl h
  | cons first rest =>
    simp only [hfound] at hbegin hn
    cases first with
    | ok token =>
      exact hends hbegin ⟨rfl, rfl, rfl⟩ fun _ => by simpa using hn
    | error fault =>
      rw [parse_of_begin_error hbegin]
      rfl

private theorem ends_separated (ht : t.Legal) (levels : Nat) {a : String} (b : String)
    {s : Lookahead} (h : begin? a = .ok s) : ∃ s', begin? (a ++ "\n;\n" ++ b) = .ok s' ∧
      (@InStep.continued t ht ⟨.symbol ';', Pos.start.down (a.toList.count '\n' + 1)⟩ rfl
        (((Cursor.ofText b .start).lexemes.map (·.1)).map (movedLexed (Pos.down (linesAbove a))))
        ((Cursor.ofText b .start).finish.down (linesAbove a))).Ends levels
          (.ofLookahead (.ofTable t) levels s) (.ofLookahead (.ofTable t) levels s') := by
  obtain ⟨s', hbegin, hrel⟩ := begin_continued b h
  exact ⟨s', hbegin, InStep.within_ends levels _ _ hrel (fun _ => Nat.lt_succ_self _)
    fun _ => Nat.lt_succ_self _⟩

private theorem parse_behind (ht : t.Legal) {a : String} (b : String) {items : List Item}
    (h : parse t levels a = .ok items) : parse t levels (a ++ "\n;\n" ++ b) =
      ((parse t levels b).map fun more =>
        items ++ more.map (Item.moved (Pos.down (linesAbove a)))).mapError
          (SyntaxError.moved (Pos.down (linesAbove a))) := by
  cases hbegin : begin? a with
  | error e =>
    rw [parse_of_begin_error hbegin] at h
    cases h
  | ok s =>
    obtain ⟨s', hbegin', hends⟩ := ends_separated ht levels b hbegin
    rw [parse_of_begin hbegin] at h
    rw [parse_of_begin hbegin']
    generalize Progress.ofLookahead (.ofTable t) levels s = p at hends h
    generalize Progress.ofLookahead (.ofTable t) levels s' = q at hends ⊢
    cases hends with
    | @finished items r r' hend hrel n hn =>
      cases hrel with
      | within hne _ => exact absurd hend hne
      | behind =>
        cases h
        have hlength := hn (Token.ne_end_of_isSymbol (c := ';') rfl)
        rw [List.length_map] at hlength
        rw [Progress.result_append]
        refine (congrArg _ (result_behind ht rfl hlength)).trans ?_
        change Except.map (List.map (Item.moved id) items ++ ·) _ = _
        rw [Item.map_moved_id]
        cases parse t levels b <;> rfl
    | failed => cases h
    | wanting _ _ _ => cases h

private theorem parse_refused (ht : t.Legal) {a : String} (b : String) {e : SyntaxError}
    (h : parse t levels a = .error e) (hgot : ∀ got, e.got? = some got → got.kind ≠ .endOfInput) :
    parse t levels (a ++ "\n;\n" ++ b) = .error e := by
  cases hbegin : begin? a with
  | error e' =>
    rw [parse_of_begin_error hbegin] at h
    rw [parse_of_begin_error (begin_fault b hbegin), h]
  | ok s =>
    obtain ⟨s', hbegin', hends⟩ := ends_separated ht levels b hbegin
    rw [parse_of_begin hbegin] at h
    rw [parse_of_begin hbegin']
    generalize Progress.ofLookahead (.ofTable t) levels s = p at hends h
    generalize Progress.ofLookahead (.ofTable t) levels s' = q at hends ⊢
    cases hends with
    | finished => cases h
    | failed =>
      cases h
      exact congrArg Except.error (SyntaxError.moved_id _)
    | wanting _ hfound hend =>
      cases h
      exact absurd hend (hgot _ hfound)

/-- A semicolon on a line of its own separates programs. If the first text is a program, the second
one is read as if it stood alone, but its places, also the one that an error of it tells, are as
many lines further down as the first text and the semicolon take up. If the first text is refused at
one of its tokens or faults, so are both together. -/
theorem parse_separated (ht : t.Legal) (levels : Nat) (a b : String) :
    (∀ items more, parse t levels a = .ok items → parse t levels b = .ok more →
      parse t levels (a ++ "\n;\n" ++ b) =
        .ok (items ++ more.map (Item.moved (Pos.down (linesAbove a))))) ∧
    (∀ items e, parse t levels a = .ok items → parse t levels b = .error e → ∃ e' p,
      parse t levels (a ++ "\n;\n" ++ b) = .error e' ∧
        e' = e.moved (Pos.down (linesAbove a)) ∧
        e.place? = some p ∧ e'.place? = some (p.down (linesAbove a)) ∧
        e.message = e.words ++ " at " ++ p.inWords ++ e.quotation ∧
        e'.message = e.words ++ " at " ++ (p.down (linesAbove a)).inWords ++ e.quotation) ∧
    ∀ e, parse t levels a = .error e → (∀ got, e.got? = some got → got.kind ≠ .endOfInput) →
      parse t levels (a ++ "\n;\n" ++ b) = .error e := by
  refine ⟨fun items more ha hb => ?_, fun items e ha hb => ?_, fun e => parse_refused ht b⟩
  · rw [parse_behind ht b ha, hb]
    rfl
  · obtain ⟨p, hp⟩ := (parse_error_declared ht hb).exists_place
    refine ⟨_, p, ?_, rfl, hp, ?_, SyntaxError.message_eq hp, SyntaxError.message_moved hp⟩
    · rw [parse_behind ht b ha, hb]
      rfl
    · rw [SyntaxError.place?_moved, hp, Option.map_some]

private theorem begin_commented :
    begin? "left # (" = .ok ⟨⟨.identifier "left", ⟨1, 1⟩⟩, [], ⟨1, 9⟩, 1⟩ := by cbv

private theorem begin_name :
    begin? "right" = .ok ⟨⟨.identifier "right", ⟨1, 1⟩⟩, [], ⟨1, 6⟩, 1⟩ := by cbv

private theorem begin_closing : begin? ")x" =
    .ok ⟨⟨.symbol ')', ⟨1, 1⟩⟩, [.ok ⟨.identifier "x", ⟨1, 2⟩⟩], ⟨1, 3⟩, 1⟩ := by cbv

/-- The semicolon ends a comment, but mends no bracket that was refused, in front of it or
behind. -/
theorem parse_separated_commentAndBracket :
    parse .standard 2 ("left # (" ++ "\n;\n" ++ "right") = .ok [
      .function (.anonymous (.var "left" ⟨1, 1⟩) ⟨1, 1⟩),
      .function (.anonymous (.var "right" ⟨3, 1⟩) ⟨3, 1⟩)] ∧
    (∃ e, parse .standard 2 ("left # (" ++ "\n;\n" ++ ")x") = .error e ∧
      e.message = "unknown token when expecting an expression at line 3, col 1 (got Token(), )))") ∧
    parse .standard 2 (")x" ++ "\n;\n" ++ "right") =
      .error (.unexpected .expression ⟨.symbol ')', ⟨1, 1⟩⟩) := by
  have hparse {text name : String} {finish : Pos} (hbegin : begin? text =
      .ok ⟨⟨.identifier name, ⟨1, 1⟩⟩, [], finish, 1⟩) :
      parse .standard 2 text = .ok [.function (.anonymous (.var name ⟨1, 1⟩) ⟨1, 1⟩)] := by
    rw [parse_of_begin hbegin]
    rfl
  have herror : parse .standard 2 ")x" =
      .error (.unexpected .expression ⟨.symbol ')', ⟨1, 1⟩⟩) := by
    rw [parse_of_begin begin_closing]
    rfl
  refine ⟨?_, ?_, ?_⟩
  · exact (parse_separated Table.standard_legal 2 "left # (" "right").1 _ _ (hparse begin_commented)
      (hparse begin_name)
  · obtain ⟨_, hbehind, _⟩ := parse_separated Table.standard_legal 2 "left # (" ")x"
    obtain ⟨e, p, he, -, hp, -, -, hmessage⟩ := hbehind _ _ (hparse begin_commented) herror
    cases hp
    refine ⟨e, he, hmessage.trans ?_⟩
    decide +kernel
  · refine (parse_separated Table.standard_legal 2 ")x" "right").2.2 _ herror ?_
    rintro got ⟨⟩
    simp

end ExprLang
