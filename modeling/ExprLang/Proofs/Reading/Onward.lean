import ExprLang.Proofs.Reading.Demand
import ExprLang.Proofs.Reading.Separator

/-! A program with more text behind it. Its items are read as if nothing followed, unless a fault
follows: this is found before the item in front of it is done. -/
namespace ExprLang

private theorem Derives.semicolon_free {t : Table} (ht : t.Legal) {k : Nonterminal}
    {ts : List Token}
    (h : Derives t k ts) (hk : k ≠ .program) : ∀ u ∈ ts, u.isSymbol ';' = false := by
  have hkind {token : Token} {kind : TokenKind} (h : token.kind = kind) (hkind : kind ≠ .symbol ';') :
      token.isSymbol ';' = false := by
    simp [Token.isSymbol, h, hkind]
  have hmark {token : Token} {c : Char} (h : token.isSymbol c = true) (hc : c ≠ ';') :
      token.isSymbol ';' = false := hkind (Token.isSymbol_iff.mp h) (by simp [hc])
  have hname {token : Token} (h : token.isName = true) : token.isSymbol ';' = false := by
    obtain ⟨name, hname⟩ := Token.isName_iff.mp h
    exact hkind hname (by simp)
  induction h with
  | noItem | semicolon | definitionItem | externalItem | expressionItem => exact absurd rfl hk
  | definition hkey _ _ ihproto ihbody =>
    simp only [List.forall_mem_cons, List.forall_mem_append]
    exact ⟨hkind hkey (by simp), ihproto (by simp), ihbody (by simp)⟩
  | external hkey _ ih => exact List.forall_mem_cons.mpr ⟨hkind hkey (by simp), ih (by simp)⟩
  | prototype hproto hopen hparams hclose =>
    simp only [List.forall_mem_cons, List.forall_mem_append]
    exact ⟨hname hproto, hmark hopen (by decide), fun u hu => hname (hparams u hu),
      hmark hclose (by decide), by simp⟩
  | expression _ _ ihfirst ihlinks =>
    exact List.forall_mem_append.mpr ⟨ihfirst (by simp), ihlinks (by simp)⟩
  | noLink => simp
  | link hop _ _ ihright ihlinks =>
    simp only [List.forall_mem_cons, List.forall_mem_append]
    exact ⟨ht.isSymbol_eq_false hop (by decide), ihright (by simp), ihlinks (by simp)⟩
  | number h =>
    obtain ⟨value, hvalue⟩ := Token.isNumber_iff.mp h
    exact List.forall_mem_singleton.mpr (hkind hvalue (by simp))
  | name h => exact List.forall_mem_singleton.mpr (hname h)
  | emptyCall h hopen hclose =>
    simp only [List.forall_mem_cons]
    exact ⟨hname h, hmark hopen (by decide), hmark hclose (by decide), by simp⟩
  | call h hopen _ hclose ih =>
    simp only [List.forall_mem_cons, List.forall_mem_append]
    exact ⟨hname h, hmark hopen (by decide), ih (by simp), hmark hclose (by decide), by simp⟩
  | bracketed hopen _ hclose ih =>
    simp only [List.forall_mem_cons, List.forall_mem_append]
    exact ⟨hmark hopen (by decide), ih (by simp), hmark hclose (by decide), by simp⟩
  | lastArgument _ ih => exact ih (by simp)
  | moreArguments _ hcomma _ iharg ihrest =>
    simp only [List.forall_mem_cons, List.forall_mem_append]
    exact ⟨iharg (by simp), hmark hcomma (by decide), ihrest (by simp)⟩

private theorem Phrase.TopItem.semicolon_free {t : Table} (ht : t.Legal) {levels : Nat}
    {ts : List Token}
    {item : Item} (h : TopItem t levels ts item) : ∀ u ∈ ts, u.isSymbol ';' = false := by
  rcases h.derives with h | h | h <;> exact h.semicolon_free ht (by simp)

namespace Lookahead

/-- A lookahead stands at the first of what was found. How often a token was asked for does not
matter. -/
def At (s : Lookahead) (found : List Lexed) : Prop :=
  ofLexed found s.finish = .ok { s with taken := 1 }

namespace At
variable {s : Lookahead} {found more : List Lexed} {token : Token} {ts : List Token}
  {fault : LexError}

theorem not_fault (h : s.At (.error fault :: found)) : False := nomatch h

theorem nil_iff : s.At [] ↔ s.current = ⟨.endOfInput, s.finish⟩ ∧ s.ahead = [] := by
  obtain ⟨current, ahead, finish, taken⟩ := s
  simp [At, ofLexed, eq_comm]

theorem cons_iff : s.At (.ok token :: found) ↔ s.current = token ∧ s.ahead = found := by
  obtain ⟨current, ahead, finish, taken⟩ := s
  simp [At, ofLexed, eq_comm]

private theorem current_mem (h : s.At (ts.map .ok ++ more)) (hne : ts ≠ []) : s.current ∈ ts := by
  obtain ⟨t, ts, rfl⟩ := List.exists_cons_of_ne_nil hne
  rw [(cons_iff.mp h).1]
  exact List.mem_cons_self

private theorem advance (h : s.At (.ok token :: found))
    (hfound : ∀ fault rest, found ≠ .error fault :: rest) :
    ∃ s', Reader.advance s = .ok () s' ∧ s'.At found ∧ s'.finish = s.finish := by
  obtain ⟨_, rfl⟩ := cons_iff.mp h
  match hahead : s.ahead with
  | [] => exact ⟨_, Reader.advance_end hahead, rfl, rfl⟩
  | .ok next :: rest => exact ⟨_, Reader.advance_token hahead, rfl, rfl⟩
  | .error fault :: rest => exact absurd hahead (hfound fault rest)

private theorem passes (h : s.At (ts.map .ok ++ more)) (hts : ∀ u ∈ ts, u.kind ≠ .endOfInput)
    (hmore : ∀ fault rest, more ≠ .error fault :: rest) :
    ∃ s', Passes s ts s' ∧ s'.At more ∧ s'.finish = s.finish := by
  induction ts generalizing s with
  | nil => exact ⟨s, .refl s, h, rfl⟩
  | cons t ts ih =>
    obtain ⟨rfl, _⟩ := cons_iff.mp h
    obtain ⟨s1, hadvance, h1, hfinish⟩ := h.advance fun fault rest => by
      cases ts with
      | nil => exact hmore fault rest
      | cons u ts => simp
    obtain ⟨s', hpass, hs', hfinish'⟩ := ih h1 fun u hu => hts u (by simp [hu])
    exact ⟨s', .step (hts _ (by simp)) hadvance hpass, hs', hfinish'.trans hfinish⟩

private theorem faultBehind (h : s.At (ts.map .ok ++ .error fault :: found)) (hne : ts ≠ []) :
    s.FaultBehind ts fault := by
  obtain ⟨t, ts, rfl⟩ := List.exists_cons_of_ne_nil hne
  obtain ⟨rfl, hahead⟩ := cons_iff.mp h
  exact ⟨found, by rw [hahead]; rfl⟩

/-- No fault stands in front, wherever the text is. -/
theorem map_ne_fault (h : s.At found) (f : Pos → Pos) (fault : LexError) (rest : List Lexed) :
    found.map (movedLexed f) ≠ .error fault :: rest := by
  match found with
  | [] | .ok _ :: _ => simp [movedLexed]
  | .error _ :: _ => exact h.not_fault.elim

private theorem follows {t : Table} (h : s.At found)
    (hfound : ∀ u rest, found = .ok u :: rest → t.isOperator u = false ∧ u.isSymbol '(' = false)
    (ts : List Token) : Follows t ts s.current := by
  match found with
  | [] => exact .of_end (by rw [(nil_iff.mp h).1])
  | .ok u :: rest =>
    obtain ⟨hop, hopen⟩ := hfound u rest rfl
    rw [(cons_iff.mp h).1]
    exact ⟨fun _ => hopen, hop⟩
  | .error fault :: rest => exact h.not_fault.elim

/-- The same is found at other places. -/
theorem below {f : Pos → Pos} {s' : Lookahead} (h : s.At found)
    (h' : s'.At (found.map (movedLexed f))) (hfinish : s'.finish = f s.finish) : s.Below f s' := by
  match found with
  | [] =>
    obtain ⟨hcurrent, hahead⟩ := nil_iff.mp h
    obtain ⟨hcurrent', hahead'⟩ := nil_iff.mp h'
    refine ⟨?_, by rw [hahead, hahead']; rfl, hfinish⟩
    rw [hcurrent, hcurrent', hfinish]
    rfl
  | .ok token :: rest =>
    obtain ⟨rfl, rfl⟩ := cons_iff.mp h
    obtain ⟨hcurrent', hahead'⟩ := cons_iff.mp h'
    exact ⟨hcurrent', hahead', hfinish⟩
  | .error fault :: rest => exact h.not_fault.elim

end At
end Lookahead

/-- Reading a text begins at the first token that it has, or does not begin for a fault in its
place. -/
theorem begin?_cases (text : String) :
    (∃ s, begin? text = .ok s ∧ s.At ((Cursor.ofText text .start).lexemes.map (·.1)) ∧
      s.finish = (Cursor.ofText text .start).finish) ∨
    ∃ fault rest, begin? text = .error (.lexical fault) ∧
      (Cursor.ofText text .start).lexemes.map (·.1) = .error fault :: rest := by
  rw [begin?_eq]
  generalize (Cursor.ofText text .start).lexemes.map (·.1) = found
  match found with
  | [] => exact .inl ⟨_, rfl, rfl, rfl⟩
  | .ok token :: rest => exact .inl ⟨_, rfl, rfl, rfl⟩
  | .error fault :: rest => exact .inr ⟨fault, rest, rfl, rfl⟩

/-- A fault keeps the item in front of it from being read, since one more token is asked for. -/
theorem Reader.item_of_fault {t : Table} (ht : t.Legal) {levels : Nat} {s : Lookahead}
    {ts : List Token} {fault : LexError} {item : Item} (h : s.FaultBehind ts fault)
    (hitem : Phrase.TopItem t levels ts item) (hts : ∀ u ∈ ts, u.kind ≠ .endOfInput) :
    ∃ s', Reader.item (.ofTable t) levels s = .error (.lexical fault) s' := by
  -- Behind a veil, the item is read to the end of input. What is read without it stops earlier.
  obtain ⟨s1, hall, hend⟩ := h.passes_veiled hts
  have hveiled : Reader.item (.ofTable t) levels s.veiled = .ok item s1 :=
    (item_reads ht _ _ _ _).mpr ⟨ts, hall, hitem, fun _ => .of_end hend⟩
  cases hread : Reader.item (.ofTable t) levels s with
  | ok found s' =>
    obtain ⟨us, hpass, _, _⟩ := (item_reads ht _ _ _ _).mp hread
    obtain ⟨rest, rfl, hfault⟩ := h.passes hpass
    obtain ⟨_, _, rfl, _⟩ := hfault.eq_cons
    cases hveiled.symm.trans ((item_blind _ _).agrees hread)
    exact absurd hend (hts _ (by simp))
  | error e s' =>
    have hlexical : ∃ found, e = .lexical found := by
      by_contra hnone
      cases hveiled.symm.trans ((item_blind _ _).refuses hread fun found he => hnone ⟨found, he⟩)
    obtain ⟨found, rfl⟩ := hlexical
    cases item_fails ht _ _ _ _ hread with
    | fault hpass _ hadvance =>
      obtain ⟨_, _, hfault⟩ := h.passes hpass
      obtain ⟨_, he⟩ := hfault.of_advance hadvance
      exact ⟨s', by rw [he]⟩

namespace Progress

def withItems (items : List Item) (p : Progress) : Progress := { p with items := items ++ p.items }

/-- The items that are done when a fault is found behind some tokens. The last one is done only if a
semicolon follows it. -/
def done (ts : List Token) (items : List Item) : List Item :=
  if ts.getLast?.any (·.isSymbol ';') then items else items.dropLast

variable {t : Table} {levels : Nat} {ts us : List Token} {items : List Item}

private theorem done_cons {token : Token} (hts : ts ≠ []) :
    done (token :: ts) items = done ts items := by
  rw [done, done, List.getLast?_cons_of_ne_nil hts]

/-- What stands for no items is semicolons. -/
theorem semicolons_of_program (h : Phrase.Program t levels ts []) :
    ∀ u ∈ ts, u.isSymbol ';' = true := by
  generalize hitems : ([] : List Item) = items at h
  induction h with
  | nil => simp
  | semicolon hsemi _ ih => exact List.forall_mem_cons.mpr ⟨hsemi, ih hitems⟩
  | item _ _ _ _ => cases hitems

private theorem done_append (h : Phrase.Program t levels us items) (hus : us ≠ []) (item : Item) :
    done (ts ++ us) (item :: items) = item :: done us items := by
  obtain ⟨last, hlast⟩ := List.getLast?_isSome.mpr hus |> Option.isSome_iff_exists.mp
  have hlast' : (ts ++ us).getLast? = some last := by rw [List.getLast?_append, hlast, Option.some_or]
  rw [done, done, hlast, hlast', Option.any_some]
  split
  · rfl
  · rename_i hsemi
    refine List.dropLast_cons_of_ne_nil fun hnil => ?_
    subst hnil
    exact hsemi (semicolons_of_program h last (List.mem_of_getLast? hlast))

private theorem done_item (ht : t.Legal) {item : Item} (h : Phrase.TopItem t levels ts item) :
    done ts [item] = [] := by
  obtain ⟨last, hlast⟩ := List.getLast?_isSome.mpr h.ne_nil |> Option.isSome_iff_exists.mp
  rw [done, hlast, Option.any_some, h.semicolon_free ht last (List.mem_of_getLast? hlast)]
  rfl

/-- What comes of a program with more behind it: it is read to its end, or a fault is found
there. -/
inductive Reached (t : Table) (levels : Nat) (ts : List Token) (items : List Item)
    (more : List Lexed) (finish : Pos) (p : Progress) : Prop
  | behind {s' : Lookahead} {n : Nat} (hs' : s'.At more) (hfinish : s'.finish = finish)
      (hn : s'.current.kind ≠ .endOfInput → s'.ahead.length < n)
      (hp : p = (within (.ofTable t) levels n s').withItems items)
  | fault {fault : LexError} {rest : List Lexed} (hts : ts ≠ []) (hmore : more = .error fault :: rest)
      (herror : p.error = some (.lexical fault)) (hitems : p.items = done ts items)

private theorem Reached.semicolon {more : List Lexed} {finish : Pos} {p : Progress} {semi : Token}
    (h : Reached t levels ts items more finish p) :
    Reached t levels (semi :: ts) items more finish p := by
  cases h with
  | behind hs' hfinish hn hp => exact .behind hs' hfinish hn hp
  | fault hts hmore herror hitems =>
    exact .fault (by simp) hmore herror (hitems.trans (done_cons hts).symm)

private theorem Reached.item {more : List Lexed} {finish : Pos} {p : Progress}
    (h : Reached t levels us items more finish p) (hus : Phrase.Program t levels us items)
    (item : Item) :
    Reached t levels (ts ++ us) (item :: items) more finish (p.withItem item) := by
  cases h with
  | behind hs' hfinish hn hp =>
    refine .behind hs' hfinish hn ?_
    rw [hp]
    rfl
  | fault hne hmore herror hitems =>
    refine .fault (by simp [hne]) hmore herror ?_
    rw [done_append hus hne, ← hitems]
    rfl

private theorem count_after {s s' : Lookahead} {count : Nat} (hpass : Passes s ts s')
    (hts : ts ≠ []) (hcount : s.ahead.length < count + 1) :
    s'.current.kind ≠ .endOfInput → s'.ahead.length < count := by
  intro hend
  have := hpass.ahead_lt hts hend
  omega

variable {more : List Lexed} {s : Lookahead} {count : Nat}

/-- What is left of a text is read with this count, wherever reading stands in front of it. -/
def Reaches (t : Table) (levels : Nat) (us : List Token) (items : List Item) (more : List Lexed)
    (finish : Pos) (count : Nat) : Prop :=
  ∀ {s : Lookahead}, s.At (us.map .ok ++ more) → s.finish = finish →
    (s.current.kind ≠ .endOfInput → s.ahead.length < count) →
    Reached t levels us items more finish (within (.ofTable t) levels count s)

private theorem reached_semicolon {semi : Token} (hsemi : semi.isSymbol ';' = true)
    (hus : Phrase.Program t levels us items)
    (hs : s.At ((semi :: us).map .ok ++ more))
    (hcount : s.current.kind ≠ .endOfInput → s.ahead.length < count + 1)
    (hrest : Reaches t levels us items more s.finish count) :
    Reached t levels (semi :: us) items more s.finish (within (.ofTable t) levels (count + 1) s) := by
  obtain ⟨rfl, hahead⟩ := Lookahead.At.cons_iff.mp hs
  have hend := Token.ne_end_of_isSymbol hsemi
  rw [within_succ _ _ hend, if_pos hsemi]
  by_cases hfault : ∃ fault rest, us.map Except.ok ++ more = .error fault :: rest
  · obtain ⟨fault, rest, hfault⟩ := hfault
    rw [Reader.advance_fault (hahead.trans hfault)]
    cases us with
    | nil =>
      obtain rfl := Phrase.Program.nil_iff.mp hus
      exact .fault (by simp) hfault rfl (by simp [done])
    | cons u us => cases hfault
  · obtain ⟨s1, hadvance, hs1, hfinish⟩ := hs.advance fun fault rest he => hfault ⟨fault, rest, he⟩
    rw [hadvance]
    exact (hrest hs1 hfinish (count_after (.one hend hadvance) (by simp) (hcount hend))).semicolon

private theorem reached_item (ht : t.Legal) {item : Item}
    (hitem : Phrase.TopItem t levels ts item) (hts : ∀ u ∈ ts, u.kind ≠ .endOfInput)
    (hus : Phrase.Program t levels us items) (hs : s.At (ts.map .ok ++ (us.map .ok ++ more)))
    (hfollow : ∀ {s' : Lookahead}, s'.At (us.map .ok ++ more) → Follows t ts s'.current)
    (hcount : s.current.kind ≠ .endOfInput → s.ahead.length < count + 1)
    (hrest : Reaches t levels us items more s.finish count) :
    Reached t levels (ts ++ us) (item :: items) more s.finish
      (within (.ofTable t) levels (count + 1) s) := by
  have hmem := hs.current_mem hitem.ne_nil
  have hend := hts _ hmem
  rw [within_succ _ _ hend, hitem.semicolon_free ht _ hmem, if_neg Bool.false_ne_true]
  by_cases hfault : ∃ fault rest, us.map Except.ok ++ more = .error fault :: rest
  · obtain ⟨fault, rest, hfault⟩ := hfault
    cases us with
    | nil =>
      -- The token behind the item is asked for before the item is done, so the fault takes its place.
      obtain rfl : more = _ := hfault
      obtain ⟨s1, hread⟩ := Reader.item_of_fault ht (hs.faultBehind hitem.ne_nil) hitem hts
      obtain rfl := Phrase.Program.nil_iff.mp hus
      rw [hread, List.append_nil]
      exact .fault hitem.ne_nil rfl rfl (done_item ht hitem).symm
    | cons u us => cases hfault
  · obtain ⟨s1, hpass, hs1, hfinish⟩ := hs.passes hts fun fault rest he => hfault ⟨fault, rest, he⟩
    have hread : Reader.item (.ofTable t) levels s = .ok item s1 :=
      (Reader.item_reads ht _ _ _ _).mpr ⟨ts, hpass, hitem, fun _ => hfollow hs1⟩
    rw [hread]
    exact (hrest hs1 hfinish (count_after hpass hitem.ne_nil (hcount hend))).item hus item

/-- A program is read with more behind it, if this does not go on with its last item. -/
theorem within_program (ht : t.Legal) (h : Phrase.Program t levels ts items)
    (hts : ∀ u ∈ ts, u.kind ≠ .endOfInput)
    (hmore : ∀ u rest, more = .ok u :: rest → t.isOperator u = false ∧ u.isSymbol '(' = false)
    (hs : s.At (ts.map .ok ++ more)) (count : Nat)
    (hcount : s.current.kind ≠ .endOfInput → s.ahead.length < count) :
    Reached t levels ts items more s.finish (within (.ofTable t) levels count s) := by
  -- By induction on the semicolons and items: each of them leaves a lookahead in front of the rest.
  induction h generalizing s count with
  | nil => exact .behind hs rfl hcount rfl
  | @semicolon semi us items hsemi hrest ih =>
    have hend := hts _ (hs.current_mem (by simp))
    obtain ⟨count, rfl⟩ := Nat.exists_eq_succ_of_ne_zero (Nat.ne_zero_of_lt (hcount hend))
    refine reached_semicolon hsemi hrest hs hcount fun hs1 hfinish hcount1 => ?_
    rw [← hfinish]
    exact ih (fun u hu => hts u (by simp [hu])) hs1 count hcount1
  | @item us vs item items hitem hcall hrest ih =>
    have hend := hts _ (hs.current_mem (by simp [hitem.ne_nil]))
    obtain ⟨count, rfl⟩ := Nat.exists_eq_succ_of_ne_zero (Nat.ne_zero_of_lt (hcount hend))
    rw [List.map_append, List.append_assoc] at hs
    refine reached_item ht hitem (fun u hu => hts u (by simp [hu])) hrest hs (fun hs' => ?_) hcount
      fun hs1 hfinish hcount1 => ?_
    · cases vs with
      | nil => exact hs'.follows hmore us
      | cons v vs =>
        rw [(Lookahead.At.cons_iff.mp hs').1]
        exact hrest.follows ht hcall v rfl
    · rw [← hfinish]
      exact ih (fun u hu => hts u (by simp [hu])) hs1 count hcount1

end Progress

/-- The same was read, but for the places. -/
structure Progress.Moved (f : Pos → Pos) (p q : Progress) : Prop where
  items : q.items = p.items.map (Item.moved f)
  error : q.error = p.error.map (SyntaxError.moved f)

private theorem InStep.Ends.moved {w : InStep} {levels : Nat} {p q : Progress}
    (h : w.Ends levels p q) (hgoes : ¬ w.goesOn) : p.Moved w.move q := by
  cases h with
  | finished hend hrel _ =>
    have hend' := Or.resolve_right (w.current hrel) fun hsemi => hgoes hsemi.1
    rw [Progress.within_end _ (by rw [hend'.2, Token.moved_kind, hend]), List.append_nil]
    exact ⟨rfl, rfl⟩
  | failed => exact ⟨rfl, rfl⟩
  | wanting h _ => exact absurd h hgoes

/-- What is found at other places is read in the same way. -/
theorem Lookahead.Below.within_moved {t : Table} (ht : t.Legal) {f : Pos → Pos} {s s' : Lookahead}
    (h : s.Below f s') (levels : Nat) {n : Nat}
    (hn : s'.current.kind ≠ .endOfInput → s'.ahead.length < n) :
    (Progress.ofLookahead (.ofTable t) levels s).Moved f (Progress.within (.ofTable t) levels n s') := by
  have hends := InStep.within_ends (w := .below t ht f) levels _ n h (fun _ => Nat.lt_succ_self _) hn
  exact hends.moved id

end ExprLang
