import ExprLang.Proofs.Lexing.Spacing
import ExprLang.Proofs.Reading.Calls
import ExprLang.Proofs.Reading.Refusal
import ExprLang.Proofs.Reading.Separator
import ExprLang.Proofs.Writing.Writable

/-! The places of tokens do not matter for what they are read as. So the white space and the
comments between them do not matter either. -/
namespace ExprLang

/-- A text is refused at the answer of call `k` for a token: something is missing there, or brackets
nest too deep. -/
structure RefusedAtCall (t : Table) (levels : Nat) (text : String) (k : Nat) (e : SyntaxError) :
    Prop where
  error : parse t levels text = .error e
  exists_stop : ∃ s s', begin? text = .ok s ∧ Reader.program (.ofTable t) levels s = .error e s' ∧
    s'.taken = k + 1 ∧ (Cursor.ofText text .start).call k = .ok s'.current ∧
    (e = .tooDeep s'.current ∨ ∃ missing, e = .unexpected missing s'.current)

/-- Two texts are read as the same items, up to their places, or are refused at tokens with the same
number and with the same words. -/
inductive ReadAlike (t : Table) (levels : Nat) (a b : String) : Prop
  | accepted {items items' : List Item} (h : parse t levels a = .ok items)
      (h' : parse t levels b = .ok items')
      (hsame : items'.map Item.unplaced = items.map Item.unplaced)
  | refused {k : Nat} {e e' : SyntaxError} (h : RefusedAtCall t levels a k e)
      (h' : RefusedAtCall t levels b k e') (hsame : e'.words = e.words)

section
variable {f : Pos → Pos}

namespace Expr

mutual

private theorem unplaced_moved : (e : Expr) → (e.moved f).unplaced = e.unplaced
  | .number _ _ | .var _ _ => by simp [moved, unplaced]
  | .binary _ left right _ => by
    simp [moved, unplaced, unplaced_moved left, unplaced_moved right]
  | .call _ args _ => by simp [moved, unplaced, unplacedArgs_moved args]

private theorem unplacedArgs_moved :
    (args : List Expr) → unplacedArgs (movedArgs f args) = unplacedArgs args
  | [] => rfl
  | arg :: rest => by simp [movedArgs, unplacedArgs, unplaced_moved arg, unplacedArgs_moved rest]

end

end Expr

private theorem Item.unplaced_moved (item : Item) : (item.moved f).unplaced = item.unplaced := by
  cases item <;> simp [Item.moved, Item.unplaced, Prototype.moved, Expr.unplaced_moved]

end

private def numbered (kinds : List TokenKind) : List Token :=
  kinds.zipIdx.map fun entry => ⟨entry.1, ⟨0, entry.2⟩⟩

private def placeOf (ts : List Token) (finish : Pos) (number : Pos) : Pos :=
  (ts[number.column.toNat]?.map Token.pos).getD finish

private theorem numbered_moved (ts : List Token) (finish : Pos) :
    (numbered (ts.map Token.kind)).map (Token.moved (placeOf ts finish)) = ts := by
  refine List.ext_getElem? fun i => ?_
  simp only [numbered, List.getElem?_map, List.getElem?_zipIdx, Option.map_map]
  cases hi : ts[i]? with
  | none => rfl
  | some token => simp [Function.comp, Token.moved, placeOf, hi]

private theorem Lookahead.below_ofTokens {f : Pos → Pos} (finish : Pos) (taken : Nat)
    (ts : List Token) :
    (ofTokens finish taken ts).Below f (ofTokens (f finish) taken (ts.map (Token.moved f))) := by
  cases ts with
  | nil => exact ⟨rfl, rfl, rfl⟩
  | cons token ts => exact ⟨rfl, by simp [ofTokens, Function.comp, movedLexed], rfl⟩

private theorem Reader.advance_leaves_taken (s : Lookahead) :
    (advance.leaves s).taken = s.taken + 1 := by
  cases hahead : s.ahead with
  | nil => rw [leaves, advance_end hahead]
  | cons found rest =>
    cases found with
    | ok token => rw [leaves, advance_token hahead]
    | error fault => rw [leaves, advance_fault hahead]

private def InStep.level (w : InStep) : InStep where
  first := w.first
  second := w.second
  first_legal := w.first_legal
  second_legal := w.second_legal
  known := w.known
  isOperator := w.isOperator
  sameOrder := w.sameOrder
  move := w.move
  goesOn := w.goesOn
  Rel s s' := w.Rel s s' ∧ s'.taken = s.taken
  current h := w.current h.1
  advance := by
    rintro s s' ⟨hrel, htaken⟩ hend
    have hadvance := w.advance hrel hend
    have hcount := Reader.advance_leaves_taken s
    have hcount' := Reader.advance_leaves_taken s'
    rw [Reader.leaves] at hcount hcount'
    generalize Reader.advance s = r at hadvance hcount
    generalize Reader.advance s' = r' at hadvance hcount'
    cases hadvance with
    | ok hvalue hrel => exact .ok hvalue ⟨hrel, by rw [hcount', hcount, htaken]⟩
    | error hrel => exact .error fun he => ⟨hrel he, by rw [hcount', hcount, htaken]⟩
    | wanting hgoes hgot hend => exact .wanting hgoes hgot hend

variable {t : Table} {levels : Nat} {text : String} {ts : List Token}

private theorem exists_ends_numbered (ht : t.Legal) (levels : Nat) (h : tokenize text = .ok ts) :
    ∃ (f : Pos → Pos) (s : Lookahead), begin? text = .ok s ∧ (InStep.below t ht f).level.Ends levels
      (.ofLookahead (.ofTable t) levels (.ofTokens ⟨0, ts.length⟩ 1 (numbered (ts.map Token.kind))))
      (.ofLookahead (.ofTable t) levels s) := by
  have hbelow := Lookahead.below_ofTokens (f := placeOf ts (Cursor.ofText text .start).finish)
    ⟨0, ts.length⟩ 1 (numbered (ts.map Token.kind))
  have hfinish : placeOf ts (Cursor.ofText text .start).finish ⟨0, ts.length⟩ =
      (Cursor.ofText text .start).finish := by simp [placeOf]
  rw [numbered_moved, hfinish] at hbelow
  exact ⟨_, _, begin?_eq_ofTokens_finish h,
    InStep.within_ends (w := (InStep.below t ht _).level) levels _ _ ⟨hbelow, by simp⟩
      (fun _ => Nat.lt_succ_self _) fun _ => Nat.lt_succ_self _⟩

private theorem Reader.program_eq_error_iff {entries : Entries} {s s' : Lookahead}
    {e : SyntaxError} :
    program entries levels s = .error e s' ↔ (Progress.ofLookahead entries levels s).error = some e ∧
      (Progress.ofLookahead entries levels s).state = s' := by
  rw [program]
  cases (Progress.ofLookahead entries levels s).error <;> simp

/-- A text without a fault is refused at one of its tokens or at its end. -/
theorem exists_refusedAtCall (ht : t.Legal) (h : tokenize text = .ok ts) {e : SyntaxError}
    (he : parse t levels text = .error e) : ∃ k, RefusedAtCall t levels text k e := by
  obtain ⟨s, _, hbegin, _, _, hahead⟩ := begin?_of_tokenize h
  have herror := he
  rw [parse_of_begin hbegin, Progress.result] at he
  split at he
  · cases he
  · rename_i hstop
    cases he
    obtain ⟨us, hpass, hkind⟩ := (Progress.within_stops ht _ hstop).passes_of_tokens hahead
    obtain ⟨hbehind, _⟩ := (behind_of_begin? hbegin).passes hpass
    rw [Nat.zero_add] at hbehind
    exact ⟨us.length, herror, _, _, hbegin, Reader.program_eq_error_iff.mpr ⟨hstop, rfl⟩,
      hbehind.taken, hbehind.current, hkind.imp_left And.left⟩

namespace RefusedAtCall
variable {k : Nat} {e : SyntaxError}

private theorem ne_lexical (h : RefusedAtCall t levels text k e) (fault : LexError) :
    e ≠ .lexical fault := by
  obtain ⟨_, _, _, _, _, _, rfl | ⟨_, rfl⟩⟩ := h.exists_stop <;> simp

private theorem taken (h : RefusedAtCall t levels text k e) {s : Lookahead}
    (hbegin : begin? text = .ok s) :
    (Progress.ofLookahead (.ofTable t) levels s).state.taken = k + 1 := by
  obtain ⟨s1, s', hbegin', hprogram, htaken, _⟩ := h.exists_stop
  obtain rfl : s = s1 := Except.ok.inj (hbegin.symm.trans hbegin')
  rw [(Reader.program_eq_error_iff.mp hprogram).2, htaken]

end RefusedAtCall

/-- How a text is read depends on nothing but the kinds of its tokens. -/
theorem readAlike_of_kinds (ht : t.Legal) {a b : String} {us : List Token}
    (ha : tokenize a = .ok ts)
    (hb : tokenize b = .ok us) (hkinds : us.map Token.kind = ts.map Token.kind) :
    ReadAlike t levels a b := by
  obtain ⟨f, s, hbegin, hends⟩ := exists_ends_numbered ht levels ha
  obtain ⟨g, s', hbegin', hends'⟩ := exists_ends_numbered ht levels hb
  have hlength : us.length = ts.length := by simpa using congrArg List.length hkinds
  rw [hkinds, hlength] at hends'
  generalize Progress.ofLookahead (.ofTable t) levels (.ofTokens ⟨0, ts.length⟩ 1 _) = p at hends hends'
  have hresult := (parse_of_begin hbegin).trans (hends.result id)
  have hresult' := (parse_of_begin hbegin').trans (hends'.result id)
  cases herror : p.error with
  | none =>
    simp only [Progress.result, herror] at hresult hresult'
    refine .accepted hresult hresult' ?_
    simp [Function.comp, Item.unplaced_moved]
  | some e =>
    simp only [Progress.result, herror] at hresult hresult'
    obtain ⟨k, hrefused⟩ := exists_refusedAtCall ht ha hresult
    obtain ⟨k', hrefused'⟩ := exists_refusedAtCall ht hb hresult'
    have hfault (fault : LexError) : e ≠ .lexical fault := by
      rintro rfl
      exact hrefused.ne_lexical _ rfl
    -- Both readings have asked for as many tokens as that of the numbered ones.
    have hlevel := (hends.rel id herror hfault).2
    have hlevel' := (hends'.rel id herror hfault).2
    rw [hrefused.taken hbegin] at hlevel
    rw [hrefused'.taken hbegin'] at hlevel'
    obtain rfl : k = k' := by omega
    refine .refused hrefused hrefused' ?_
    rw [SyntaxError.words_moved, SyntaxError.words_moved]

/-- The gaps between the tokens of a text do not matter. If its tokens are written once more, with
white space and closed comments of any kind between any two of them, and maybe in front and behind,
the same tokens are found. With every table, both texts are read as the same items, or are refused
with the same words at the same token. -/
theorem readAlike_spaced {text : String} {ts : List Token} (h : tokenize text = .ok ts)
    {gap : Nat → List Char} (hgap : ∀ k, Spacing (gap k))
    (hbetween : ∀ k, 0 < k → k < ts.length → gap k ≠ []) :
    (∃ us, tokenize (String.ofList (spaced gap ts)) = .ok us ∧
      us.map Token.kind = ts.map Token.kind) ∧
    ∀ (t : Table) (levels : Nat), t.Legal → ReadAlike t levels text (String.ofList (spaced gap ts)) := by
  have hlexable (t : Token) (ht : t ∈ ts) : t.kind.Lexable :=
    mem_lexemes text (by simp [tokenize_eq_ok_iff.mp h, ht])
  have hscans := scans_spaced hlexable hgap hbetween
  rw [← String.toList_ofList (l := spaced gap ts)] at hscans
  obtain ⟨us, hus, hkinds⟩ := hscans.tokenize
  exact ⟨⟨us, hus, hkinds⟩, fun t levels ht => readAlike_of_kinds ht h hus hkinds⟩

/-- A raised two begins no word, and the bracket in a comment is none. -/
theorem readAlike_spaced_comments :
    tokenize "x ²y" = .ok [⟨.identifier "x", ⟨1, 1⟩⟩, ⟨.symbol '²', ⟨1, 3⟩⟩,
      ⟨.identifier "y", ⟨1, 4⟩⟩] ∧
    (∃ us, tokenize "x#(\n²#(\ny" = .ok us ∧
      us.map Token.kind = [.identifier "x", .symbol '²', .identifier "y"]) ∧
    ReadAlike .standard 2 "x ²y" "x#(\n²#(\ny" := by
  have htokens : tokenize "x ²y" = .ok [⟨.identifier "x", ⟨1, 1⟩⟩, ⟨.symbol '²', ⟨1, 3⟩⟩,
      ⟨.identifier "y", ⟨1, 4⟩⟩] := by cbv
  have hcomment : Spacing ['#', '(', '\n'] := @Spacing.comment ['('] [] (by simp) .nil
  have hspaced := @readAlike_spaced _ _ htokens
    (fun k => if k = 1 ∨ k = 2 then ['#', '(', '\n'] else [])
    (fun k => by
      split
      · exact hcomment
      · exact .nil)
    (fun k hk hlt => by
      have hmiddle : k = 1 ∨ k = 2 := by
        simp only [List.length_cons, List.length_nil] at hlt
        omega
      simp [hmiddle])
  exact ⟨htokens, hspaced.1, hspaced.2 .standard 2 Table.standard_legal⟩

end ExprLang
