import ExprLang.Proofs.Reading.Calls
import ExprLang.Proofs.Reading.Veil
import Mathlib.Data.List.Permutation

/-! Tokens are asked for one at a time, and no more of them than it takes to know what becomes of a
text. A fault counts only if nothing in front of it is refused. -/
namespace ExprLang

/-- What the last call for a token answers, by what comes of a text. -/
def Decides : Except SyntaxError (List Item) → Lexed → Prop
  | .ok _, answer => ∃ pos, answer = .ok ⟨.endOfInput, pos⟩
  | .error (.lexical fault), answer => answer = .error fault
  | .error e, answer => ∃ got, e.got? = some got ∧ answer = .ok got

/-- The calls for a token that the reading of a text makes: some that are answered with tokens, and
one more, whose answer decides. -/
structure Demands (t : Table) (levels : Nat) (text : String) (us : List Token) : Prop where
  passed : ∀ k u, us[k]? = some u →
    u.kind ≠ .endOfInput ∧ (Cursor.ofText text .start).call k = .ok u
  last : Decides (parse t levels text) ((Cursor.ofText text .start).call us.length)
  taken : ∀ s, begin? text = .ok s →
    ((Reader.program (.ofTable t) levels).leaves s).taken = us.length + 1

variable {t : Table} {levels : Nat} {text : String} {ts : List Token} {fault : LexError}

private theorem passed_concat {c : Cursor} {us : List Token} {last : Token}
    (hus : ∀ k u, us[k]? = some u → u.kind ≠ .endOfInput ∧ c.call k = .ok u)
    (hend : last.kind ≠ .endOfInput) (hlast : c.call us.length = .ok last) :
    ∀ k u, (us ++ [last])[k]? = some u → u.kind ≠ .endOfInput ∧ c.call k = .ok u := by
  intro k u hu
  rcases Nat.lt_trichotomy k us.length with hk | rfl | hk
  · rw [List.getElem?_append_left hk] at hu
    exact hus k u hu
  · rw [List.getElem?_concat_length] at hu
    cases hu
    exact ⟨hend, hlast⟩
  · rw [List.getElem?_eq_none (by simpa [Nat.succ_le_iff] using hk)] at hu
    cases hu

private theorem exists_calls (ht : t.Legal) {c : Cursor} {s : Lookahead} (hs : s.Behind c 0)
    {p : Progress} (hp : Progress.ofLookahead (.ofTable t) levels s = p) :
    ∃ us : List Token, (∀ k u, us[k]? = some u → u.kind ≠ .endOfInput ∧ c.call k = .ok u) ∧
      Decides p.result (c.call us.length) ∧ p.state.taken = us.length + 1 := by
  have hpassed {us : List Token} {s1 : Lookahead} (hpass : Passes s us s1) := hs.passes hpass
  simp only [Nat.zero_add] at hpassed
  obtain ⟨items, error, last⟩ := p
  cases error with
  | none =>
    obtain ⟨us, hpass, hend, _⟩ :=
      (Progress.within_eq_iff ht _ fun _ => Nat.lt_succ_self _).mp hp
    obtain ⟨hbehind, hus⟩ := hpassed hpass
    refine ⟨us, hus, ⟨last.current.pos, ?_⟩, hbehind.taken⟩
    rw [hbehind.current, ← hend]
  | some e =>
    have hstops := Progress.within_stops ht _ (congrArg Progress.error hp)
    rw [show (Progress.within _ _ _ s).state = last from congrArg Progress.state hp] at hstops
    clear hp
    cases hstops with
    | unexpected missing hpass =>
      obtain ⟨hbehind, hus⟩ := hpassed hpass
      exact ⟨_, hus, ⟨_, rfl, hbehind.current⟩, hbehind.taken⟩
    | tooDeep hpass _ =>
      obtain ⟨hbehind, hus⟩ := hpassed hpass
      exact ⟨_, hus, ⟨_, rfl, hbehind.current⟩, hbehind.taken⟩
    | @fault us s1 _ _ hpass hend hadvance =>
      obtain ⟨hbehind, hus⟩ := hpassed hpass
      obtain ⟨fault, rfl, hcall, htaken⟩ := hbehind.fault hadvance
      refine ⟨us ++ [s1.current], passed_concat hus hend hbehind.current, ?_, ?_⟩
      · rw [List.length_append]
        exact hcall
      · rw [List.length_append]
        exact htaken

/-- No token is asked for behind the one that decides. -/
theorem exists_demands (ht : t.Legal) (levels : Nat) (text : String) :
    ∃ us, Demands t levels text us := by
  cases hbegin : begin? text with
  | error e =>
    obtain ⟨fault, rfl, hcall⟩ := call_of_begin?_eq_error hbegin
    refine ⟨[], by simp, ?_, fun s hs => nomatch hbegin.symm.trans hs⟩
    rw [parse_of_begin_error hbegin]
    exact hcall
  | ok s =>
    obtain ⟨us, hus, hlast, htaken⟩ := exists_calls ht (behind_of_begin? hbegin) rfl
    refine ⟨us, hus, ?_, fun s' hs' => ?_⟩
    · rw [parse_of_begin hbegin]
      exact hlast
    · cases hbegin.symm.trans hs'
      rw [Progress.leaves_program, htaken]

/-- The tokens from the current one on stand in front of a fault. -/
def Lookahead.FaultBehind (s : Lookahead) (ts : List Token) (fault : LexError) : Prop :=
  ∃ more, .ok s.current :: s.ahead = ts.map Except.ok ++ .error fault :: more

namespace Lookahead.FaultBehind
variable {s s' : Lookahead} {us : List Token}

theorem eq_cons (h : s.FaultBehind ts fault) : ∃ rest more, ts = s.current :: rest ∧
    s.ahead = rest.map Except.ok ++ .error fault :: more := by
  obtain ⟨more, h⟩ := h
  cases ts with
  | nil => cases h
  | cons t ts =>
    obtain ⟨hcurrent, hahead⟩ := List.cons.inj h
    cases hcurrent
    exact ⟨ts, more, rfl, hahead⟩

/-- What is passed are the first of the tokens in front of the fault. -/
theorem passes (h : s.FaultBehind ts fault) (hpass : Passes s us s') :
    ∃ rest, ts = us ++ rest ∧ s'.FaultBehind rest fault := by
  induction hpass generalizing ts with
  | refl => exact ⟨ts, rfl, h⟩
  | step _ hadvance _ ih =>
    obtain ⟨rest, more, rfl, hahead⟩ := h.eq_cons
    cases rest with
    | nil =>
      rw [Reader.advance_fault hahead] at hadvance
      cases hadvance
    | cons next rest =>
      rw [Reader.advance_token hahead] at hadvance
      cases hadvance
      obtain ⟨last, hlast, hfault⟩ := @ih (next :: rest) ⟨more, rfl⟩
      exact ⟨last, congrArg (_ :: ·) hlast, hfault⟩

/-- Only the fault itself is found when moving on. -/
theorem of_advance (h : s.FaultBehind ts fault) {e : SyntaxError}
    (hadvance : Reader.advance s = .error e s') : ts = [s.current] ∧ e = .lexical fault := by
  obtain ⟨rest, more, rfl, hahead⟩ := h.eq_cons
  cases rest with
  | nil =>
    rw [Reader.advance_fault hahead] at hadvance
    cases hadvance
    exact ⟨rfl, rfl⟩
  | cons next rest =>
    rw [Reader.advance_token hahead] at hadvance
    cases hadvance

private theorem passes_to_end {pos : Pos} {zs : List Lexed}
    (hahead : s.ahead = ts.map Except.ok ++ .ok ⟨.endOfInput, pos⟩ :: zs)
    (hts : ∀ u ∈ s.current :: ts, u.kind ≠ .endOfInput) :
    ∃ s', Passes s (s.current :: ts) s' ∧ s'.current.kind = .endOfInput := by
  induction ts generalizing s with
  | nil => exact ⟨_, .one (hts _ (by simp)) (Reader.advance_token hahead), rfl⟩
  | cons next ts ih =>
    have hadvance := Reader.advance_token hahead
    obtain ⟨s', hpass, hend⟩ :=
      @ih ⟨next, _, s.finish, s.taken + 1⟩ rfl fun u hu => hts u (List.mem_cons_of_mem _ hu)
    exact ⟨s', .step (hts _ (by simp)) hadvance hpass, hend⟩

/-- Without the fault, all tokens in front of it can be passed. -/
theorem passes_veiled (h : s.FaultBehind ts fault) (hts : ∀ u ∈ ts, u.kind ≠ .endOfInput) :
    ∃ s', Passes s.veiled ts s' ∧ s'.current.kind = .endOfInput := by
  obtain ⟨rest, more, rfl, hahead⟩ := h.eq_cons
  refine @passes_to_end rest s.veiled s.finish
    (List.replicate more.length (.ok ⟨.endOfInput, s.finish⟩)) ?_ hts
  rw [Lookahead.veiled, hahead, veil_append_fault, List.replicate_succ]

end Lookahead.FaultBehind

section
variable {s : Lookahead}

private theorem viable_of_fault (ht : t.Legal) (h : s.FaultBehind ts fault)
    (hts : ∀ u ∈ ts, u.kind ≠ .endOfInput) (hn : nesting ts < levels)
    {found : LexError}
    (herror : (Progress.ofLookahead (.ofTable t) levels s).error = some (.lexical found)) :
    Viable t .program ts := by
  -- Behind a veil, the same reading finds the end of input where it found the fault. Either that
  -- suits it, and the tokens are a program, or it misses what could have stood there.
  have hspent := Progress.within_veiled _ herror
  obtain ⟨s1, hall, hend⟩ := h.passes_veiled hts
  have hcount : s.veiled.ahead.length < s.ahead.length + 1 := by
    rw [Lookahead.veiled, length_veil]
    exact Nat.lt_succ_self _
  generalize hp : Progress.within (.ofTable t) levels (s.ahead.length + 1) s.veiled = p at hspent
  obtain ⟨items, error, last⟩ := p
  cases error with
  | none =>
    obtain ⟨us, hpass, hend', hus⟩ := (Progress.within_eq_iff ht _ fun _ => hcount).mp hp
    obtain ⟨rfl, _⟩ := hall.unique hend hpass hend'
    refine ⟨[], ?_⟩
    rw [List.append_nil]
    exact hus.derives
  | some e =>
    have hstops := Progress.within_stops ht _ (congrArg Progress.error hp)
    obtain ⟨missing, got, rfl⟩ := unexpected_of_stops hstops hall hend (veil_ok _ _) hn
    have hstopsAt := Progress.within_stopsAt ht _ (congrArg Progress.error hp)
    rw [show (Progress.within _ _ _ s.veiled).state = last from congrArg Progress.state hp]
      at hstopsAt
    obtain ⟨hpass, hrefuses⟩ := hstopsAt
    obtain ⟨rfl, _⟩ := hall.unique hend hpass hspent.current
    exact hrefuses.viable

private theorem parse_of_faultBehind (ht : t.Legal) (hbegin : begin? text = .ok s)
    (h : s.FaultBehind ts fault) (hts : ∀ u ∈ ts, u.kind ≠ .endOfInput)
    (hn : nesting ts < levels) :
    (Viable t .program ts ∧ parse t levels text = .error (.lexical fault)) ∨
      ∃ before got rest missing, ts = before ++ got :: rest ∧ Viable t .program before ∧
        ¬ Viable t .program (before ++ [got]) ∧
          parse t levels text = .error (.unexpected missing got) := by
  have hleft {us : List Token} {s1 : Lookahead} (hpass : Passes s us s1) :
      ∃ rest, ts = us ++ s1.current :: rest := by
    obtain ⟨_, rfl, hfault⟩ := h.passes hpass
    obtain ⟨rest, _, rfl, _⟩ := hfault.eq_cons
    exact ⟨rest, rfl⟩
  have hresult : parse t levels text = _ := parse_of_begin hbegin
  rw [Progress.result] at hresult
  cases herror : (Progress.ofLookahead (.ofTable t) levels s).error with
  | none =>
    rw [herror] at hresult
    obtain ⟨s', us, hpass, hend, _⟩ := (parse_of_begin_eq_ok_iff ht hbegin).mp hresult
    obtain ⟨rest, rfl⟩ := hleft hpass
    exact absurd hend (hts _ (by simp))
  | some e =>
    rw [herror] at hresult
    have hstops := Progress.within_stops ht _ herror
    have hearly {missing : Missing} {got : Token} (he : e = .unexpected missing got) :=
      Progress.within_stopsAt ht _ (herror.trans (congrArg some he))
    generalize (Progress.within _ _ _ s).state = last at hstops hearly
    cases hstops with
    | unexpected missing _ =>
      obtain ⟨_, us, hpass, hrefuses⟩ := (hearly rfl).exists_passes
      obtain ⟨rest, rfl⟩ := hleft hpass
      refine .inr ⟨_, _, rest, missing, rfl, hrefuses.viable, fun hviable => ?_, hresult⟩
      obtain ⟨vs, hword⟩ := hviable
      rw [List.append_assoc] at hword
      exact hrefuses.not_word vs hword
    | fault hpass _ hadvance =>
      obtain ⟨_, _, hfault⟩ := h.passes hpass
      obtain ⟨_, rfl⟩ := hfault.of_advance hadvance
      exact .inl ⟨viable_of_fault ht h hts hn herror, hresult⟩
    | @tooDeep us _ hpass hdeep =>
      -- The tokens passed would be nested beyond the limit by themselves.
      obtain ⟨rest, rfl⟩ := hleft hpass
      have := balance_le_nesting us (last.current :: rest)
      omega

end

/-- The tokens in front of the first fault of a text. -/
structure FirstFault (text : String) (ts : List Token) (fault : LexError) : Prop where
  tokens : ∀ k u, ts[k]? = some u → (Cursor.ofText text .start).call k = .ok u
  fault : (Cursor.ofText text .start).call ts.length = .error fault

private theorem answers_iff {stop : Token} {found : List Lexed} :
    ((∀ (k : Nat) (u : Token), ts[k]? = some u → found[k]?.getD (.ok stop) = .ok u) ∧
        found[ts.length]?.getD (.ok stop) = .error fault) ↔
      ∃ more, found = ts.map Except.ok ++ .error fault :: more := by
  induction ts generalizing found with
  | nil =>
    cases found with
    | nil => simp
    | cons first rest => simp
  | cons t ts ih =>
    cases found with
    | nil => simp
    | cons first rest =>
      have hrest := @ih rest
      constructor
      · rintro ⟨htokens, hfault⟩
        obtain ⟨more, rfl⟩ := hrest.mp ⟨fun k => htokens (k + 1), hfault⟩
        obtain rfl : first = .ok t := htokens 0 t rfl
        exact ⟨more, rfl⟩
      · rintro ⟨more, he⟩
        obtain ⟨rfl, hmore⟩ := List.cons.inj he
        obtain ⟨htokens, hfault⟩ := hrest.mpr ⟨more, hmore⟩
        refine ⟨fun k u hu => ?_, hfault⟩
        cases k with
        | zero =>
          cases hu
          rfl
        | succ k => exact htokens k u hu

private theorem firstFault_iff : FirstFault text ts fault ↔
    ∃ more, (Cursor.ofText text .start).lexemes.map (·.1) =
      ts.map Except.ok ++ .error fault :: more := by
  rw [← answers_iff]
  constructor
  · rintro ⟨htokens, hfault⟩
    rw [Cursor.call_eq] at hfault
    refine ⟨fun k u hu => ?_, hfault⟩
    rw [← Cursor.call_eq]
    exact htokens k u hu
  · rintro ⟨htokens, hfault⟩
    rw [← Cursor.call_eq] at hfault
    refine ⟨fun k u hu => ?_, hfault⟩
    rw [Cursor.call_eq]
    exact htokens k u hu

private theorem tokenize_eq_error_iff :
    tokenize text = .error fault ↔ ∃ ts, FirstFault text ts fault := by
  simp only [firstFault_iff]
  exact Cursor.collectTokens_eq_error_iff

private theorem FirstFault.kind_ne_end (h : FirstFault text ts fault) :
    ∀ u ∈ ts, u.kind ≠ .endOfInput := by
  obtain ⟨more, hmore⟩ := firstFault_iff.mp h
  intro u hu hk
  have hlexable : u.kind.Lexable := mem_lexemes text (by
    rw [hmore]
    exact List.mem_append_left _ (List.mem_map_of_mem hu))
  rw [hk] at hlexable
  exact hlexable

/-- In front of the first fault of a text, a program is refused where no program goes on, or else at
the fault. -/
theorem parse_of_firstFault (ht : t.Legal) (h : FirstFault text ts fault)
    (hn : nesting ts < levels) :
    (Viable t .program ts ∧ parse t levels text = .error (.lexical fault)) ∨
      ∃ before got rest missing, ts = before ++ got :: rest ∧ Viable t .program before ∧
        ¬ Viable t .program (before ++ [got]) ∧
          parse t levels text = .error (.unexpected missing got) := by
  obtain ⟨more, hmore⟩ := firstFault_iff.mp h
  cases ts with
  | nil =>
    have hbegin : begin? text = .error (.lexical fault) := by
      rw [begin?, Lookahead.ofText, Lookahead.ofCursor, hmore]
      rfl
    exact .inl ⟨⟨[], .noItem⟩, parse_of_begin_error hbegin⟩
  | cons first rest =>
    have hbegin : begin? text = .ok ⟨first, rest.map Except.ok ++ .error fault :: more,
        (Cursor.ofText text .start).finish, 1⟩ := by
      rw [begin?_eq_ok_iff, Lookahead.ofText, Lookahead.ofCursor, hmore]
      rfl
    exact parse_of_faultBehind ht hbegin ⟨more, rfl⟩ h.kind_ne_end hn

private theorem firstFault_call : FirstFault "f(1.2.3"
    [⟨.identifier "f", ⟨1, 1⟩⟩, ⟨.symbol '(', ⟨1, 2⟩⟩] ⟨.malformed "1.2.3", ⟨1, 3⟩⟩ := by
  refine ⟨fun k u hu => ?_, by cbv⟩
  rcases k with _ | _ | k
  · cases hu
    cbv
  · cases hu
    cbv
  · cases hu

private theorem firstFault_closing : FirstFault ")1.2.3" [⟨.symbol ')', ⟨1, 1⟩⟩]
    ⟨.malformed "1.2.3", ⟨1, 2⟩⟩ := by
  refine ⟨fun k u hu => ?_, by cbv⟩
  cases k with
  | zero =>
    cases hu
    cbv
  | succ k => cases hu

/-- The items of tokens that have all been found before reading begins. -/
def parseTokens (t : Table) (levels : Nat) (finish : Pos) (ts : List Token) :
    Except SyntaxError (List Item) :=
  (Progress.ofLookahead (.ofTable t) levels (.ofTokens finish 1 ts)).result

/-- Reading a text asks for one token after the other, up to the one that decides. If the text has
no fault, this comes to the same as reading its tokens once they all have been found. A fault is
reported exactly if the tokens in front of it begin a program; otherwise the first token that makes
them begin none is refused, and no text with a fault is accepted. -/
theorem parse_on_demand (ht : t.Legal) (levels : Nat) (text : String) :
    (∃ us, Demands t levels text us) ∧
    (∀ ts, tokenize text = .ok ts →
      parse t levels text = parseTokens t levels (Cursor.ofText text .start).finish ts) ∧
    (∀ fault, tokenize text = .error fault ↔ ∃ ts, FirstFault text ts fault) ∧
    ∀ ts fault, FirstFault text ts fault →
      (∀ items, parse t levels text ≠ .ok items) ∧
      (nesting ts < levels →
        (Viable t .program ts → parse t levels text = .error (.lexical fault)) ∧
        (¬ Viable t .program ts →
          ∃ before got rest missing, ts = before ++ got :: rest ∧ Viable t .program before ∧
            ¬ Viable t .program (before ++ [got]) ∧
            parse t levels text = .error (.unexpected missing got))) := by
  refine ⟨exists_demands ht levels text, fun ts hts => ?_, fun fault => tokenize_eq_error_iff,
    fun ts fault hfault => ⟨fun items hitems => ?_, fun hn => ?_⟩⟩
  · exact parse_of_begin (begin?_eq_ofTokens_finish hts)
  · have herror := tokenize_eq_error_iff.mpr ⟨ts, hfault⟩
    obtain ⟨us, htokens, _⟩ := exists_program_of_parse ht hitems
    cases herror.symm.trans htokens
  · rcases parse_of_firstFault ht hfault hn with
      ⟨hviable, hparse⟩ | ⟨before, got, rest, missing, rfl, hbefore, hgot, hparse⟩
    · exact ⟨fun _ => hparse, fun hnot => absurd hviable hnot⟩
    · refine ⟨fun ⟨us, hus⟩ => absurd ⟨rest ++ us, ?_⟩ hgot,
        fun _ => ⟨before, got, rest, missing, rfl, hbefore, hgot, hparse⟩⟩
      simpa using hus

/-- A bad number is reported behind an opening bracket, where an argument may stand. That another
token is refused in front of one shows that no program begins with it. -/
theorem parse_on_demand_badNumber :
    parse .standard 2 "f(1.2.3" = .error (.lexical ⟨.malformed "1.2.3", ⟨1, 3⟩⟩) ∧
      ¬ Viable .standard .program [⟨.symbol ')', ⟨1, 1⟩⟩] := by
  obtain ⟨_, _, _, hviable⟩ := parse_on_demand Table.standard_legal 2 "f(1.2.3"
  obtain ⟨_, _, _, hrefused⟩ := parse_on_demand Table.standard_legal 2 ")1.2.3"
  obtain ⟨_, hviable⟩ := hviable _ _ firstFault_call
  obtain ⟨_, hrefused⟩ := hrefused _ _ firstFault_closing
  have hcall : Derives .standard .primary [⟨.identifier "f", ⟨1, 1⟩⟩, ⟨.symbol '(', ⟨1, 2⟩⟩,
      ⟨.symbol ')', ⟨1, 3⟩⟩] := .emptyCall rfl rfl rfl
  have hprogram : Derives .standard .program (_ ++ []) :=
    .expressionItem (.of_primary hcall) .noItem
  refine ⟨(hviable (by decide)).1 ⟨[_], hprogram⟩, fun h => ?_⟩
  have hbegin : begin? ")1.2.3" = .ok ⟨⟨.symbol ')', ⟨1, 1⟩⟩,
      [.error ⟨.malformed "1.2.3", ⟨1, 2⟩⟩], ⟨1, 7⟩, 1⟩ := by cbv
  have hparse : parse .standard 2 ")1.2.3" =
      .error (.unexpected .expression ⟨.symbol ')', ⟨1, 1⟩⟩) := by
    rw [parse_of_begin hbegin]
    rfl
  cases hparse.symm.trans ((hrefused (by decide)).1 h)

end ExprLang
