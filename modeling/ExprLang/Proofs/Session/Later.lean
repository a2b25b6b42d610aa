import ExprLang.Proofs.Reading.Onward
import ExprLang.Proofs.Session.Told

/-! What a session prints of a program with more text on the lines behind it. The items of the
program come first, and then what it prints of the rest. But a bad number right behind an item is
found before the item is done, and takes its place. -/
namespace ExprLang

/-- A text begins with nothing that an expression in front of it would go on with. -/
def BeginsApart (t : Table) (text : String) : Prop :=
  ∀ s, begin? text = .ok s → t.isOperator s.current = false ∧ s.current.isSymbol '(' = false

/-- The first of two texts ends in an item without a semicolon, and the second one begins with a bad
number. -/
structure Swallows (a b : String) : Prop where
  ends : ∃ ts last, tokenize a = .ok ts ∧ ts.getLast? = some last ∧ last.isSymbol ';' = false
  begins : ∃ e, begin? b = .error e

private theorem Cursor.finish_joined (a b : String) : (ofText (a ++ "\n" ++ b) .start).finish =
    (ofText b .start).finish.down (linesOf a) := by
  have hlist : (a ++ "\n" ++ b).toList = (a.toList ++ ['\n']) ++ b.toList := by
    simp [String.toList_append]
  rw [finish, finish, (Pos.down_steady _).afterAll, ofText, hlist, Pos.afterAll_append,
    Pos.afterAll_line]
  rfl

section
variable {t : Table} {levels limit : Nat} {a b : String} {items : List Item} {ts : List Token}

private theorem swallows_iff (ha : tokenize a = .ok ts) :
    Swallows a b ↔ (∃ e, begin? b = .error e) ∧
      ∃ last, ts.getLast? = some last ∧ last.isSymbol ';' = false := by
  constructor
  · rintro ⟨⟨us, last, hus, hlast⟩, hb⟩
    cases ha.symm.trans hus
    exact ⟨hb, last, hlast⟩
  · rintro ⟨hb, last, hlast⟩
    exact ⟨⟨ts, last, ha, hlast⟩, hb⟩

private theorem done_of_swallows (ha : tokenize a = .ok ts) (h : Swallows a b) :
    Progress.done ts items = items.dropLast := by
  obtain ⟨_, last, hlast, hsemi⟩ := (swallows_iff ha).mp h
  rw [Progress.done, hlast, Option.any_some, hsemi, if_neg Bool.false_ne_true]

private theorem done_of_not_swallows (ha : tokenize a = .ok ts) (hts : ts ≠ [])
    (hb : ∃ e, begin? b = .error e) (h : ¬ Swallows a b) : Progress.done ts items = items := by
  obtain ⟨last, hlast⟩ := Option.isSome_iff_exists.mp (List.getLast?_isSome.mpr hts)
  have hsemi : last.isSymbol ';' = true := by
    by_contra hnot
    exact h ((swallows_iff ha).mpr ⟨hb, last, hlast, by simpa using hnot⟩)
  rw [Progress.done, hlast, Option.any_some, if_pos hsemi]

private theorem found_joined (ha : tokenize a = .ok ts) :
    (Cursor.ofText (a ++ "\n" ++ b) .start).lexemes.map (·.1) = ts.map .ok ++
      ((Cursor.ofText b .start).lexemes.map (·.1)).map (movedLexed (Pos.down (linesOf a))) := by
  rw [lexemes_joined, tokenize_eq_ok_iff.mp ha]

private theorem BeginsApart.moved {s : Lookahead} {found : List Lexed} (hb : BeginsApart t b)
    (hbegin : begin? b = .ok s) (hs : s.At found) (f : Pos → Pos) :
    ∀ u rest, found.map (movedLexed f) = .ok u :: rest →
      t.isOperator u = false ∧ u.isSymbol '(' = false := by
  intro u rest hu
  match found with
  | .ok v :: _ =>
    cases hu
    obtain ⟨rfl, _⟩ := Lookahead.At.cons_iff.mp hs
    exact hb s hbegin

private theorem read_joined_of_begin (ht : t.Legal)
    (hprogram : Phrase.Program t levels ts items) (ha : tokenize a = .ok ts)
    (hb : BeginsApart t b) {s : Lookahead} (hbegin : begin? b = .ok s)
    (hs : s.At ((Cursor.ofText b .start).lexemes.map (·.1)))
    (hfinish : s.finish = (Cursor.ofText b .start).finish) :
    ending t levels (a ++ "\n" ++ b) =
        (ending t levels b).map (SyntaxError.moved (Pos.down (linesOf a))) ∧
    collected t levels (a ++ "\n" ++ b) =
      items ++ (collected t levels b).map (Item.moved (Pos.down (linesOf a))) := by
  have hnone := hs.map_ne_fault (Pos.down (linesOf a))
  rcases begin?_cases (a ++ "\n" ++ b) with ⟨s1, hbegin1, hs1, hfinish1⟩ | ⟨fault, rest, _, hfault⟩
  · rw [found_joined ha] at hs1
    have hreached := Progress.within_program ht hprogram (kind_ne_end_of_tokenize ha)
      (hb.moved hbegin hs _) hs1 (s1.ahead.length + 1) fun _ => Nat.lt_succ_self _
    cases hreached with
    | @behind s' n hs' hfinish' hn hp =>
      have hbelow : s.Below (Pos.down (linesOf a)) s' := hs.below hs' <| by
        rw [hfinish', hfinish1, Cursor.finish_joined, hfinish]
      have hmoved := hbelow.within_moved ht levels hn
      rw [ending_of_begin hbegin1, collected_of_begin hbegin1, ending_of_begin hbegin,
        collected_of_begin hbegin, ← hmoved.error, ← hmoved.items, Progress.ofLookahead, hp]
      exact ⟨rfl, rfl⟩
    | fault _ hmore _ _ => exact absurd hmore (hnone _ _)
  · rw [found_joined ha] at hfault
    cases ts with
    | nil => exact absurd hfault (hnone _ _)
    | cons t ts => cases hfault

private theorem read_joined_of_fault (ht : t.Legal)
    (hprogram : Phrase.Program t levels ts items) (ha : tokenize a = .ok ts)
    {fault : LexError} {rest : List Lexed}
    (hfound : (Cursor.ofText b .start).lexemes.map (·.1) = .error fault :: rest) :
    ending t levels (a ++ "\n" ++ b) = some (.lexical (fault.moved (Pos.down (linesOf a)))) ∧
    collected t levels (a ++ "\n" ++ b) = if ts = [] then [] else Progress.done ts items := by
  have hjoined := found_joined (b := b) ha
  rw [hfound] at hjoined
  rcases begin?_cases (a ++ "\n" ++ b) with ⟨s, hbegin, hs, _⟩ | ⟨first, others, hbegin, hfault⟩
  · rw [hjoined] at hs
    have hreached := Progress.within_program ht hprogram (kind_ne_end_of_tokenize ha)
      (by rintro _ _ ⟨⟩) hs (s.ahead.length + 1) fun _ => Nat.lt_succ_self _
    rw [ending_of_begin hbegin, collected_of_begin hbegin]
    cases hreached with
    | behind hs' _ _ _ => exact hs'.not_fault.elim
    | fault hts hmore herror hitems =>
      cases hmore
      rw [if_neg hts]
      exact ⟨herror, hitems⟩
  · rw [hjoined] at hfault
    cases ts with
    | nil =>
      cases hfault
      rw [ending_of_begin_error hbegin, collected_of_begin_error hbegin]
      exact ⟨rfl, rfl⟩
    | cons t ts => cases hfault

/-- Two texts with a line feed between them are read one after the other, but an item in front of a
fault is lost. -/
theorem read_joined (ht : t.Legal) (ha : parse t levels a = .ok items) (hb : BeginsApart t b) :
    ending t levels (a ++ "\n" ++ b) =
        (ending t levels b).map (SyntaxError.moved (Pos.down (linesOf a))) ∧
    (Swallows a b → collected t levels (a ++ "\n" ++ b) = items.dropLast) ∧
    (¬ Swallows a b → collected t levels (a ++ "\n" ++ b) =
      items ++ (collected t levels b).map (Item.moved (Pos.down (linesOf a)))) := by
  obtain ⟨ts, htokens, hprogram, _⟩ := exists_program_of_parse ht ha
  rcases begin?_cases b with ⟨s, hbegin, hs, hfinish⟩ | ⟨fault, rest, hbegin, hfound⟩
  · obtain ⟨hending, hcollected⟩ :=
      read_joined_of_begin ht hprogram htokens hb hbegin hs hfinish
    refine ⟨hending, fun h => ?_, fun _ => hcollected⟩
    obtain ⟨_, e, he⟩ := h
    cases hbegin.symm.trans he
  · obtain ⟨hending, hcollected⟩ := read_joined_of_fault ht hprogram htokens hfound
    rw [hending, ending_of_begin_error hbegin, hcollected, collected_of_begin_error hbegin]
    refine ⟨rfl, fun h => ?_, fun h => ?_⟩
    · obtain ⟨_, last, hlast, _⟩ := (swallows_iff htokens).mp h
      rw [if_neg (by rintro rfl; cases hlast), done_of_swallows htokens h]
    · rw [List.map_nil, List.append_nil]
      split
      · rename_i hnil
        subst hnil
        exact (Phrase.Program.nil_iff.mp hprogram).symm
      · rename_i hts
        exact done_of_not_swallows htokens hts ⟨_, hbegin⟩ h

private theorem ne_nil_of_swallows (ht : t.Legal) (ha : parse t levels a = .ok items)
    (h : Swallows a b) :
    items ≠ [] := by
  rintro rfl
  obtain ⟨ts, htokens, hprogram, _⟩ := exists_program_of_parse ht ha
  obtain ⟨_, last, hlast, hsemi⟩ := (swallows_iff htokens).mp h
  rw [Progress.semicolons_of_program hprogram last (List.mem_of_getLast? hlast)] at hsemi
  cases hsemi

private theorem errorLine_ne_told (e : SyntaxError) (verbose : Bool) (item : Item) (rest : String) :
    Report.errorLine e ≠ item.told verbose ++ rest := by
  intro h
  have hhead := congrArg (·.toList.head?) h
  have hitem : item.description.toList.head? = some 'P' := by
    cases item with
    | external proto =>
      rw [Item.description]
      decide
    | function f =>
      rw [Item.description, functionDescription]
      split <;> decide
  simp [Report.errorLine, Item.told, hitem] at hhead

/-- Where an item is lost, what is printed does not begin with all items. -/
theorem not_told_of_error {verbose : Bool} (hitems : items ≠ []) (e : SyntaxError) (rest : String) :
    (Report.ofItems limit verbose (some e) items.dropLast).printed ≠
      Report.told verbose items ++ rest := by
  have htold : Report.told verbose items =
      Report.told verbose items.dropLast ++ (items.getLast hitems).told verbose := by
    conv_lhs => rw [← List.dropLast_append_getLast hitems]
    simp [Report.told, String.join_append]
  intro h
  by_cases hflat : verbose = true → renderable limit items.dropLast = true
  · rw [Report.ofItems_of_flat hflat, htold, Report.after, String.append_assoc] at h
    exact errorLine_ne_told e verbose _ rest (String.append_right_inj _ |>.mp h)
  · obtain ⟨rfl, hdeep⟩ := Classical.not_imp.mp hflat
    have hlength := Report.length_printed_lt (Bool.eq_false_iff.mpr hdeep) (some e) []
    rw [List.append_nil, h, htold] at hlength
    simp only [String.length_append] at hlength
    omega

/-- What a session prints of a program with more text on the lines behind it, which does not go on
with its last item. The items of the program come first, and behind them all that the rest comes to,
as many lines further down. There are two exceptions: an item in front of a bad number is lost
without a semicolon between them, and one that is too deep for its text cuts the report off. -/
theorem report_joined (ht : t.Legal) {limits : Limits} (ha : parse t levels a = .ok items)
    (hsession : ¬ BreaksOff (parse t limits.levels a)) (hb : BeginsApart t b) (verbose : Bool) :
    (¬ Swallows a b → (verbose = true → renderable limits.source items = true) →
      Report.ofText limits (.ok t) verbose (a ++ "\n" ++ b) =
        (Report.ofItems limits.source verbose
          ((ending t limits.levels b).map (SyntaxError.moved (Pos.down (linesOf a))))
          (collected t limits.levels b)).after (Report.told verbose items)) ∧
    (Swallows a b → (verbose = true → renderable limits.source items.dropLast = true) →
      ∃ e, begin? b = .error e ∧ Report.ofText limits (.ok t) verbose (a ++ "\n" ++ b) =
        ⟨Report.told verbose items.dropLast ++
          Report.errorLine (e.moved (Pos.down (linesOf a))), none⟩) ∧
    ((∃ rest, (Report.ofText limits (.ok t) verbose (a ++ "\n" ++ b)).printed =
        Report.told verbose items ++ rest) ↔
      ¬ Swallows a b ∧ (verbose = true → renderable limits.source items = true)) := by
  have hread : parse t limits.levels a = .ok items :=
    (parse_eq_parse (ha ▸ not_breaksOff_ok items) hsession).trans ha
  obtain ⟨hending, hlost, hall⟩ := read_joined ht hread hb
  simp only [Report.ofText_eq_ofItems, hending]
  have hwhole (hnot : ¬ Swallows a b)
      (hflat : verbose = true → renderable limits.source items = true) :
      Report.ofItems limits.source verbose
          ((ending t limits.levels b).map (SyntaxError.moved (Pos.down (linesOf a))))
          (collected t limits.levels (a ++ "\n" ++ b)) =
        (Report.ofItems limits.source verbose
          ((ending t limits.levels b).map (SyntaxError.moved (Pos.down (linesOf a))))
          (collected t limits.levels b)).after (Report.told verbose items) := by
    rw [hall hnot, Report.ofItems_append hflat, Report.ofItems_moved]
  refine ⟨hwhole, fun h hflat => ?lost, ?onlyIf, ?told⟩
  case lost =>
    obtain ⟨e, he⟩ := h.begins
    refine ⟨e, he, ?_⟩
    rw [ending_of_begin_error he, hlost h, Option.map_some, Report.ofItems_of_flat hflat]
    rfl
  case onlyIf =>
    rintro ⟨rest, hrest⟩
    have hnot : ¬ Swallows a b := fun h => by
      obtain ⟨e, he⟩ := h.begins
      rw [ending_of_begin_error he, hlost h, Option.map_some] at hrest
      exact not_told_of_error (ne_nil_of_swallows ht hread h) _ rest hrest
    refine ⟨hnot, fun hverbose => ?_⟩
    subst hverbose
    by_contra hdeep
    have hlength := Report.length_printed_lt (Bool.eq_false_iff.mpr hdeep)
      ((ending t limits.levels b).map (SyntaxError.moved (Pos.down (linesOf a))))
      ((collected t limits.levels b).map (Item.moved (Pos.down (linesOf a))))
    rw [← hall hnot, hrest, String.length_append] at hlength
    omega
  case told =>
    rintro ⟨hnot, hflat⟩
    rw [hwhole hnot hflat]
    exact ⟨_, rfl⟩

end

private theorem begin?_badNumber :
    begin? "1.2.3" = .error (.lexical ⟨.malformed "1.2.3", ⟨1, 1⟩⟩) := by cbv

private theorem begin?_name :
    begin? "x" = .ok ⟨⟨.identifier "x", ⟨1, 1⟩⟩, [], ⟨1, 2⟩, 1⟩ := by cbv

private theorem begin?_nameThenSemicolon : begin? "x;" = .ok ⟨⟨.identifier "x", ⟨1, 1⟩⟩,
    [.ok ⟨.symbol ';', ⟨1, 2⟩⟩], ⟨1, 3⟩, 1⟩ := by cbv

private theorem begin?_nameThenBadNumber : begin? ("x" ++ "\n" ++ "1.2.3") =
    .ok ⟨⟨.identifier "x", ⟨1, 1⟩⟩, [.error ⟨.malformed "1.2.3", ⟨2, 1⟩⟩], ⟨2, 6⟩, 1⟩ := by cbv

private theorem beginsApart_badNumber : BeginsApart .standard "1.2.3" :=
  fun _ hs => nomatch begin?_badNumber.symm.trans hs

/-- Behind a semicolon, the item is told before the bad number. -/
theorem report_joined_semicolon : ∃ items, parse .standard 2 "x;" = .ok items ∧ items ≠ [] ∧
    BeginsApart .standard "1.2.3" ∧ ∃ rest,
      (Report.ofText ⟨2, 2, 2⟩ (.ok .standard) true ("x;" ++ "\n" ++ "1.2.3")).printed =
        Report.told true items ++ rest := by
  have hparse : parse .standard 2 "x;" = .ok [.function (.anonymous (.var "x" ⟨1, 1⟩) ⟨1, 1⟩)] := by
    rw [parse_of_begin begin?_nameThenSemicolon]
    rfl
  have htokens : tokenize "x;" = .ok [⟨.identifier "x", ⟨1, 1⟩⟩, ⟨.symbol ';', ⟨1, 2⟩⟩] := by cbv
  have hnot : ¬ Swallows "x;" "1.2.3" := fun h => by
    obtain ⟨_, last, hlast, hsemi⟩ := (swallows_iff htokens).mp h
    cases hlast
    cases hsemi
  obtain ⟨_, _, htold⟩ :=
    @report_joined _ 2 _ _ _ Table.standard_legal ⟨2, 2, 2⟩ hparse (hparse ▸ not_breaksOff_ok _)
      beginsApart_badNumber true
  exact ⟨_, hparse, by simp, beginsApart_badNumber, htold.mpr ⟨hnot, fun _ => by decide⟩⟩

/-- Without a semicolon, the bad number is all that is printed, though the line in front of it is an
item by itself. -/
theorem report_of_lostItem : ∃ items, parse .standard 2 "x" = .ok items ∧
    BeginsApart .standard "1.2.3" ∧
    Report.ofText ⟨2, 2, 2⟩ (.ok .standard) false ("x" ++ "\n" ++ "1.2.3") =
      ⟨"[error] >>> Invalid number literal '1.2.3' at line 2, col 1\n", none⟩ ∧
    ¬ ∃ rest, (Report.ofText ⟨2, 2, 2⟩ (.ok .standard) false ("x" ++ "\n" ++ "1.2.3")).printed =
      Report.told false items ++ rest := by
  have hparse : parse .standard 2 "x" = .ok [.function (.anonymous (.var "x" ⟨1, 1⟩) ⟨1, 1⟩)] := by
    rw [parse_of_begin begin?_name]
    rfl
  have hreport : Report.ofText ⟨2, 2, 2⟩ (.ok .standard) false ("x" ++ "\n" ++ "1.2.3") =
      ⟨"[error] >>> Invalid number literal '1.2.3' at line 2, col 1\n", none⟩ := by
    rw [Report.ofText, begin?_nameThenBadNumber]
    decide +kernel
  refine ⟨_, hparse, beginsApart_badNumber, hreport, ?_⟩
  rintro ⟨rest, hrest⟩
  have hhead := congrArg (·.toList.head?) hrest
  rw [hreport] at hhead
  simp +decide [Report.told, Item.told] at hhead

end ExprLang
