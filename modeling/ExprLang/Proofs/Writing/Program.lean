import ExprLang.Proofs.Writing.Fusion
import ExprLang.Proofs.Writing.Item

/-! The source text of a program is read as the same items, but for those that are one item when
they are written one after the other. -/
namespace ExprLang

variable {t : Table} {ts us vs : List Token}

private theorem Expr.Writable.eq_var {e : Expr} (hw : e.Writable t)
    (h : us.map Token.kind = e.kinds) (hends : EndsInName us) : ∃ name pos, e = .var name pos := by
  obtain ⟨e', he', _⟩ := hw.reads (Nat.le_refl _) us h
  obtain ⟨token, rfl, hname⟩ := he'.derives.eq_name hends
  obtain ⟨name, hkind⟩ := Token.isName_iff.mp hname
  cases hw with
  | var _ pos => exact ⟨_, pos, rfl⟩
  | number _ _ | binary _ _ _ _ | call _ _ _ => simp [Expr.kinds, hkind] at h

namespace Item

private theorem Writable.eq_bare {item : Item} (hw : item.Writable t)
    (h : us.map Token.kind = item.kinds) (hends : EndsInName us) :
    ∃ proto name pos place, item = .function ⟨proto, .var name pos, place⟩ := by
  cases hw with
  | external _ =>
    obtain ⟨keyword, header, rfl, _, hheader⟩ := List.map_eq_cons_iff.mp h
    obtain ⟨_, hheader⟩ := Phrase.exists_header_of_kinds hheader
    rw [endsInName_cons hheader.ne_nil] at hends
    exact absurd hends hheader.not_endsInName
  | @function f _ hbody =>
    obtain ⟨front, body, rfl, _, hkinds⟩ := List.map_eq_append_iff.mp h
    obtain ⟨_, he, _⟩ := hbody.reads (Nat.le_refl _) body hkinds
    rw [endsInName_append he.derives.primary_ne_nil] at hends
    obtain ⟨name, pos, hvar⟩ := hbody.eq_var hkinds hends
    exact ⟨f.proto, name, pos, f.pos, by rw [← hvar]⟩

private theorem eq_bracketed {item : Item} {more : List TokenKind}
    (h : us.map Token.kind = item.kinds ++ more) (hbegins : BeginsWithBracket us) :
    ∃ proto operator left right pos place,
      item = .function ⟨proto, .binary operator left right pos, place⟩ ∧
        proto.name = anonymousName := by
  obtain ⟨head, hhead, hopen⟩ := hbegins
  obtain ⟨rest, rfl⟩ := List.head?_eq_some_iff.mp hhead
  have hkind := Token.isSymbol_iff.mp hopen
  cases item with
  | external _ => simp [kinds, hkind] at h
  | function f =>
    obtain ⟨proto, body, place⟩ := f
    by_cases hname : proto.name = anonymousName
    · cases body with
      | binary operator left right pos => exact ⟨_, _, _, _, _, _, rfl, hname⟩
      | _ => simp [kinds, Prototype.front, hname, Expr.kinds, hkind] at h
    · simp [kinds, Prototype.front, hname, hkind] at h

private theorem Writable.not_called {item next : Item} {more : List TokenKind}
    (hw : item.Writable t) (hnone : item.absorb? next = none) (hus : us.map Token.kind = item.kinds)
    (hvs : vs.map Token.kind = next.kinds ++ more) (hends : EndsInName us) :
    ¬ BeginsWithBracket vs := by
  intro hbegins
  obtain ⟨_, _, _, _, rfl⟩ := hw.eq_bare hus hends
  obtain ⟨_, _, _, _, _, _, rfl, hname⟩ := eq_bracketed hvs hbegins
  rw [absorb?, if_pos hname] at hnone
  cases hnone

private theorem Writable.not_endsInName {item next joined : Item} (hw : next.Writable t)
    (hjoined : item.absorb? next = some joined) (h : vs.map Token.kind = next.kinds) :
    ¬ EndsInName (us ++ vs) := by
  obtain ⟨_⟩ := absorb?_eq_some_iff.mp hjoined
  have hne : vs ≠ [] := by
    rintro rfl
    simp [kinds, Expr.kinds] at h
  rw [endsInName_append hne]
  intro hends
  obtain ⟨_, _, _, _, he⟩ := hw.eq_bare h hends
  cases he

end Item

namespace Phrase

private theorem exists_call {name operator : String} {left right : Expr} {inner : Pos}
    (hw : (Expr.binary operator left right inner).Writable t)
    (hus : us.map Token.kind = [.identifier name])
    (hvs : vs.map Token.kind = Expr.kinds (.binary operator left right inner)) :
    ∃ levels e, Expression t levels (us ++ vs) e ∧
      e.unplaced = .call name [Expr.unplaced (.binary operator left right inner)] .start := by
  obtain ⟨token, rfl, htoken⟩ := List.map_eq_singleton_iff.mp hus
  cases hw with
  | binary hop hleft hright _ =>
    obtain ⟨opening, argument, closing, e, rfl, hopen, hclose, he, hunplaced⟩ :=
      Expr.exists_bracketed hop (hleft.reads (Nat.le_max_left left.depth right.depth))
        (hright.reads (Nat.le_max_right left.depth right.depth)) hvs
    have hcall : Operand t (max left.depth right.depth + 1)
        (token :: opening :: (argument ++ [closing])) (.call name [e] token.pos) :=
      OperandOver.call htoken hopen (.last he hclose)
    refine ⟨_, _, hcall.expression, ?_⟩
    rw [← hunplaced]
    rfl

private theorem exists_topItem (ht : t.Legal) {proto : Prototype} {body : Expr} {m n : Nat}
    (hproto : proto.Writable ∨ proto.Anonymous) (hfront : ts.map Token.kind = proto.front)
    (hbody : Expression t m us body) (hn : nesting (ts ++ us) < n) :
    ∃ item, TopItem t n (ts ++ us) item ∧
      item.unplaced = .function ⟨{ proto with pos := .start }, body.unplaced, .start⟩ := by
  rcases hproto with hproto | ⟨hname, hparams⟩
  · rw [Prototype.front, if_neg hproto.name_ne] at hfront
    obtain ⟨keyword, header, rfl, hkey, hkinds⟩ := List.map_eq_cons_iff.mp hfront
    obtain ⟨pos, hheader⟩ := exists_header_of_kinds hkinds
    have hright := nesting_append_right (balance_definition ht hkey hheader.derives) us
    exact ⟨_, .definition hkey hheader (hbody.of_nesting ht (by omega)), rfl⟩
  · rw [Prototype.front, if_pos hname, List.map_eq_nil_iff] at hfront
    subst hfront
    obtain ⟨token, rest, rfl, _⟩ := hbody.derives.expression_eq_cons
    refine ⟨_, .expression (hbody.of_nesting ht hn), ?_⟩
    rw [hname, hparams]
    rfl

private theorem exists_topItem_of_kinds (ht : t.Legal) {item : Item} (hw : item.Writable t)
    (h : ts.map Token.kind = item.kinds) {n : Nat} (hn : nesting ts < n) :
    ∃ item', TopItem t n ts item' ∧ item'.unplaced = item.unplaced := by
  cases hw with
  | external _ =>
    obtain ⟨keyword, header, rfl, hkey, hkinds⟩ := List.map_eq_cons_iff.mp h
    obtain ⟨pos, hheader⟩ := exists_header_of_kinds hkinds
    exact ⟨_, .external hkey hheader, rfl⟩
  | function hproto hbody =>
    obtain ⟨front, body, rfl, hfront, hkinds⟩ := List.map_eq_append_iff.mp h
    obtain ⟨e', he', hunplaced⟩ := hbody.reads (Nat.le_refl _) body hkinds
    obtain ⟨item', hitem', hitem⟩ := exists_topItem ht hproto hfront he'.expression hn
    refine ⟨item', hitem', ?_⟩
    rw [hitem, hunplaced, Item.unplaced]

/-- The tokens of two items that are read together stand for the item that they are read as. -/
theorem exists_topItem_of_absorb? (ht : t.Legal) {item next joined : Item} (hw : item.Writable t)
    (hw' : next.Writable t) (hjoined : item.absorb? next = some joined)
    (hus : us.map Token.kind = item.kinds) (hvs : vs.map Token.kind = next.kinds) {n : Nat}
    (hn : nesting (us ++ vs) < n) :
    ∃ item', TopItem t n (us ++ vs) item' ∧ item'.unplaced = joined.unplaced := by
  obtain ⟨hname⟩ := Item.absorb?_eq_some_iff.mp hjoined
  rw [Item.kinds, Prototype.front, if_pos hname, List.nil_append] at hvs
  cases hw' with
  | function _ hbinary =>
    cases hw with
    | function hproto _ =>
      obtain ⟨front, body, rfl, hfront, hbody⟩ := List.map_eq_append_iff.mp hus
      obtain ⟨_, e', he', hunplaced⟩ := exists_call hbinary hbody hvs
      rw [List.append_assoc] at hn ⊢
      obtain ⟨item', hitem', hitem⟩ := exists_topItem ht hproto hfront he' hn
      exact ⟨item', hitem', by rw [hitem, hunplaced]; rfl⟩

/-- The tokens that items are written with stand for these items, read together where they can
be. -/
theorem exists_program_of_kinds (ht : t.Legal) {items : List Item}
    (hw : ∀ item ∈ items, item.Writable t) (h : ts.map Token.kind = items.flatMap Item.kinds)
    {n : Nat} (hn : nesting ts < n) : ∃ items', Program t n ts items' ∧
      items'.map Item.unplaced = (fuse items).map Item.unplaced := by
  induction items using fuse.induct generalizing ts with
  | case1 =>
    rw [List.map_eq_nil_iff.mp h]
    exact ⟨[], .nil, rfl⟩
  | case2 item =>
    rw [List.flatMap_singleton] at h
    obtain ⟨item', hitem', hitem⟩ := exists_topItem_of_kinds ht (hw item (by simp)) h hn
    refine ⟨[item'], ?_, by simp [fuse, hitem]⟩
    simpa using Program.item hitem' (fun _ => by simp [BeginsWithBracket]) .nil
  | case3 item next rest joined hjoined ih =>
    rw [List.flatMap_cons, List.flatMap_cons, ← List.append_assoc] at h
    obtain ⟨_, ws, rfl, h, hws⟩ := List.map_eq_append_iff.mp h
    obtain ⟨us, vs, rfl, hus, hvs⟩ := List.map_eq_append_iff.mp h
    have hnext := hw next (by simp)
    obtain ⟨item', hitem', hitem⟩ := exists_topItem_of_absorb? ht (hw item (by simp)) hnext hjoined
      hus hvs (Nat.lt_of_le_of_lt (nesting_append_left _ ws) hn)
    have hright := nesting_append_right (hitem'.balance_eq_zero ht) ws
    obtain ⟨items', hitems', hitems⟩ := ih (fun e he => hw e (by simp [he])) hws (by omega)
    refine ⟨item' :: items', .item hitem' ?_ hitems', ?_⟩
    · exact fun hends => absurd hends (hnext.not_endsInName hjoined hvs)
    · rw [fuse_of_some hjoined, List.map_cons, List.map_cons, hitem, hitems]
  | case4 item next rest hnone ih =>
    rw [List.flatMap_cons] at h
    obtain ⟨us, vs, rfl, hus, hvs⟩ := List.map_eq_append_iff.mp h
    obtain ⟨item', hitem', hitem⟩ := exists_topItem_of_kinds ht (hw item (by simp)) hus
      (Nat.lt_of_le_of_lt (nesting_append_left us vs) hn)
    have hright := nesting_append_right (hitem'.balance_eq_zero ht) vs
    obtain ⟨items', hitems', hitems⟩ := ih (fun e he => hw e (List.mem_cons_of_mem item he)) hvs
      (by omega)
    refine ⟨item' :: items', .item hitem' ?_ hitems', ?_⟩
    · exact (hw item (by simp)).not_called hnone hus (by rw [hvs, List.flatMap_cons])
    · rw [fuse_of_none hnone, List.map_cons, List.map_cons, hitem, hitems]

end Phrase

private theorem Item.Writable.absorb? {item next joined : Item} (hw : item.Writable t)
    (hw' : next.Writable t) (hjoined : item.absorb? next = some joined) : joined.Writable t := by
  obtain ⟨_⟩ := absorb?_eq_some_iff.mp hjoined
  cases hw with
  | function hproto hname =>
    cases hw' with
    | function _ hbinary =>
      cases hname with
      | var hname _ =>
        refine .function hproto (.call hname (fun arg harg => ?_) _)
        rw [List.mem_singleton.mp harg]
        exact hbinary

private theorem fuse_writable {items : List Item} (hw : ∀ item ∈ items, item.Writable t) :
    ∀ item ∈ fuse items, item.Writable t := by
  induction items using fuse.induct with
  | case1 => exact hw
  | case2 item => exact hw
  | case3 item next rest joined hjoined ih =>
    rw [fuse_of_some hjoined]
    intro e he
    rcases List.mem_cons.mp he with rfl | he
    · exact (hw item (by simp)).absorb? (hw next (by simp)) hjoined
    · exact ih (fun e he => hw e (by simp [he])) e he
  | case4 item next rest hnone ih =>
    rw [fuse_of_none hnone]
    intro e he
    rcases List.mem_cons.mp he with rfl | he
    · exact hw e (by simp)
    · exact ih (fun e he => hw e (List.mem_cons_of_mem item he)) e he

/-- All items of a text can be written. -/
theorem parse_writable (ht : t.Legal) {levels : Nat} {text : String} {items : List Item}
    (h : parse t levels text = .ok items) : ∀ item ∈ items, item.Writable t := by
  obtain ⟨ts, _, hts, hlexable⟩ := exists_program_of_parse ht h
  exact hts.writable hlexable

/-- The text of items that can be written is read as what is left when they are read together. -/
theorem parse_sourceOf_of_writable (ht : t.Legal) {levels : Nat} {items : List Item}
    (hw : ∀ item ∈ items, item.Writable t)
    (hn : textNesting (sourceOf items) < levels) : ∃ items',
      parse t levels (sourceOf items) = .ok items' ∧
        items'.map Item.unplaced = (fuse items).map Item.unplaced := by
  obtain ⟨ts, htokens, hkinds⟩ := (spells_sourceOf ht hw).tokenize
  rw [textNesting_eq htokens] at hn
  obtain ⟨items', hitems', hunplaced⟩ := Phrase.exists_program_of_kinds ht hw hkinds hn
  exact ⟨items', (parse_eq_ok_iff ht htokens).mpr hitems', hunplaced⟩

/-- What is read from the text of a program is the program with its neighbours read together, which
is the program itself exactly if no two neighbours are. Written and read once more, it stays. -/
theorem parse_sourceOf (ht : t.Legal) {levels again : Nat} {text : String} {items : List Item}
    (h : parse t levels text = .ok items) (hn : textNesting (sourceOf items) < again)
    (hn' : textNesting (sourceOf (fuse items)) < again) :
    (∃ items', parse t again (sourceOf items) = .ok items' ∧
      items'.map Item.unplaced = (fuse items).map Item.unplaced ∧
      (items'.map Item.unplaced = items.map Item.unplaced ↔ Settled items)) ∧
    ∃ items', parse t again (sourceOf (fuse items)) = .ok items' ∧
      items'.map Item.unplaced = (fuse items).map Item.unplaced := by
  have hw := parse_writable ht h
  obtain ⟨items', hparse, hunplaced⟩ := parse_sourceOf_of_writable ht hw hn
  obtain ⟨items'', hparse', hunplaced'⟩ := parse_sourceOf_of_writable ht (fuse_writable hw) hn'
  rw [fuse_eq_self (settled_fuse items)] at hunplaced'
  refine ⟨⟨items', hparse, hunplaced, ?_⟩, items'', hparse', hunplaced'⟩
  rw [hunplaced]
  exact fuse_unplaced_eq_iff

private def nameAndSum : List Item :=
  [.function (.anonymous (.var "v" ⟨1, 1⟩) ⟨1, 1⟩),
    .function (.anonymous (.binary "+" (.var "a" ⟨1, 4⟩) (.var "b" ⟨1, 8⟩) ⟨1, 6⟩) ⟨1, 4⟩)]

private theorem parse_nameAndSum : parse .standard 2 "v; a + b" = .ok nameAndSum := by
  let v : Token := ⟨.identifier "v", ⟨1, 1⟩⟩
  let semi : Token := ⟨.symbol ';', ⟨1, 2⟩⟩
  let a : Token := ⟨.identifier "a", ⟨1, 4⟩⟩
  let plus : Token := ⟨.symbol '+', ⟨1, 6⟩⟩
  let b : Token := ⟨.identifier "b", ⟨1, 8⟩⟩
  have htokens : tokenize "v; a + b" = .ok [v, semi, a, plus, b] := by cbv
  have hname {token : Token} {name : String} (h : token.kind = .identifier name) :
      Phrase.Operand .standard 2 [token] (.var name token.pos) :=
    Phrase.OperandOver.name h
  have hv : Phrase.Expression .standard 2 [v] (.var "v" v.pos) :=
    (hname rfl).expression
  let sum : Expr := .binary "+" (.var "a" a.pos) (.var "b" b.pos) plus.pos
  have hsum : Phrase.Expression .standard 2 ([a] ++ plus :: [b]) sum :=
    (hname rfl).joined rfl (hname rfl)
  have hrest : Phrase.Program .standard 2 ([a, plus, b] ++ [])
      [.function (.anonymous sum a.pos)] :=
    .item (.expression hsum) (fun _ => by simp [BeginsWithBracket]) .nil
  rw [parse_eq_ok_iff Table.standard_legal htokens]
  exact .item (.expression hv) (fun _ => by simp [BeginsWithBracket, Token.isSymbol, semi])
    (.semicolon rfl hrest)

/-- Two items that a semicolon keeps apart are a call in the text that is written for them. -/
theorem parse_sourceOf_nameAndSum : ∃ items, parse .standard 150 "v\n(a + b)" = .ok items ∧
    items.map Item.unplaced = [.function ⟨⟨anonymousName, [], .start⟩,
      .call "v" [.binary "+" (.var "a" .start) (.var "b" .start) .start] .start, .start⟩] := by
  have hw := parse_writable Table.standard_legal parse_nameAndSum
  have hn : textNesting (sourceOf nameAndSum) < 150 :=
    Nat.lt_of_le_of_lt (spells_sourceOf Table.standard_legal hw).textNesting_le (by decide)
  have hn' : textNesting (sourceOf (fuse nameAndSum)) < 150 :=
    Nat.lt_of_le_of_lt (spells_sourceOf Table.standard_legal (fuse_writable hw)).textNesting_le
      (by decide)
  have hsource : sourceOf nameAndSum = "v\n(a + b)" := by cbv
  obtain ⟨⟨items, hparse, hunplaced, _⟩, _⟩ :=
    parse_sourceOf Table.standard_legal parse_nameAndSum hn hn'
  rw [hsource] at hparse
  exact ⟨items, hparse, hunplaced⟩

end ExprLang
