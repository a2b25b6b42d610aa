import ExprLang.Command.Line
import ExprLang.Proofs.Reading.Calls
import ExprLang.Proofs.Reading.Depth
import ExprLang.Proofs.Reading.Message
import ExprLang.Proofs.Writing.WellFormed

/-! What a session says of a text is what a run over the text comes to: the items are those that are
parsed, and the error is the same, unless the text is too deep to be read. -/
namespace ExprLang

namespace Report

def errorLine (e : SyntaxError) : String := "[error] >>> " ++ e.message ++ "\n"

/-- Read items and report each of them before the next one is read. The limit is that on the depth
of source texts, and the number bounds the items and semicolons. -/
def reading (read : Reader Item) (limit : Nat) (verbose : Bool) :
    Nat → Emitter → Lookahead → Except NodeError Report
  | 0, _, _ => .ok ⟨"", none⟩
  | count + 1, emitter, s =>
    if s.current.kind = .endOfInput then .ok ⟨"", none⟩
    else if s.current.isSymbol ';' then
      match Reader.advance s with
      | .ok _ s => reading read limit verbose count emitter s
      | .error e _ => .ok ⟨errorLine e, none⟩
    else
      match read s with
      | .ok item s => do
        let described := (← item.toNode.description) ++ "\n"
        if verbose then
          if item.depth ≤ limit then
            let (emitted, emitter) := emitter.emit item.toNode
            let echo := "[ast] >>> " ++ (← emitted) ++ "\n"
            return (← reading read limit verbose count emitter s).after (described ++ echo)
          else return ⟨described, some .tooDeep⟩
        else return (← reading read limit verbose count emitter s).after described
      | .error e _ => .ok ⟨errorLine e, none⟩

/-- Read a text and report its items on the way, given how items are read. -/
def readingText (read : Reader Item) (limit : Nat) (verbose : Bool) (text : String) :
    Except NodeError Report :=
  match begin? text with
  | .error e => .ok ⟨errorLine e, none⟩
  | .ok s => reading read limit verbose (s.ahead.length + 1) .empty s

end Report

/-- Read a text by calls, with a frame for the report. There is no call for the whole program in
between. -/
def Descent.report (t : Table) (frames limit : Nat) (verbose : Bool) :
    String → Except NodeError Report :=
  Report.readingText (Descent.item t (frames - 1)) limit verbose

variable {t : Table} {levels limit : Nat} {verbose : Bool}

theorem Item.Writable.itemSource {item : Item} (h : item.Writable t) :
    item.toNode.itemSource = .ok item.source := by
  apply Node.itemSource_toNode
  rintro f rfl hname
  cases h with
  | function hproto _ =>
    rcases hproto with hproto | hproto
    · exact absurd hname hproto.name_ne
    · exact hproto.params

namespace Report

/-- Reporting each item at once comes to the same as reporting all of them in the end. -/
theorem reading_eq (ht : t.Legal) (levels limit count : Nat) (emitter : Emitter) {s : Lookahead}
    (hs : s.Sound) : reading (Reader.item (.ofTable t) levels) limit verbose count emitter s =
      .ok (ofItems limit verbose (Progress.within (.ofTable t) levels count s).error
        (Progress.within (.ofTable t) levels count s).items) := by
  induction count generalizing emitter s with
  | zero => rfl
  | succ count ih =>
    by_cases hend : s.current.kind = .endOfInput
    · rw [reading, Progress.within, if_pos hend, if_pos hend]
      rfl
    rw [reading, if_neg hend, Progress.within_succ _ _ hend]
    split
    · cases hadvance : Reader.advance s with
      | ok _ s1 => exact ih emitter (hs.advance hadvance)
      | error e s1 => rfl
    · cases hitem : Reader.item (.ofTable t) levels s with
      | error e s1 => rfl
      | ok item s1 =>
        obtain ⟨ts, hpass, hts, _⟩ := (Reader.item_reads ht _ _ _ _).mp hitem
        -- What has been emitted before plays no part in the text of the next item.
        have hsource := (hts.writable (hs.passes hpass)).itemSource
        have hrest (emitter : Emitter) := ih emitter (hs.after hpass)
        simp only [Node.description_toNode, Emitter.emit, hsource, hrest, Progress.withItem, ofItems]
        split
        · split
          · simp only [← String.append_assoc]
            rfl
          · rfl
        · rfl

theorem readingText_eq (ht : t.Legal) (limits : Limits) (text : String) :
    readingText (Reader.item (.ofTable t) limits.levels) limits.source verbose text =
      .ok (ofText limits (.ok t) verbose text) := by
  rw [readingText, ofText]
  cases hbegin : begin? text with
  | error e => rfl
  | ok s => exact reading_eq ht _ _ _ .empty (sound_of_begin? hbegin)

private theorem reading_agrees {x y : Reader Item} (h : Reader.Agrees x y) (count : Nat)
    (emitter : Emitter) {s : Lookahead} (items : List Item)
    (hdeep : ¬ Reader.TooDeepAt
      (Reader.turns (·.kind = .endOfInput) (Reader.itemTurn y) (count + 1) items) s) :
    reading x limit verbose count emitter s = reading y limit verbose count emitter s := by
  induction count generalizing emitter s items with
  | zero => rfl
  | succ count ih =>
    rw [reading, reading]
    by_cases hend : s.current.kind = .endOfInput
    · rw [if_pos hend, if_pos hend]
    rw [Reader.TooDeepAt, Reader.turns_succ, if_neg (by simpa using hend), Reader.bind_apply,
      Reader.itemTurn, Reader.current_bind] at hdeep
    rw [if_neg hend, if_neg hend]
    split
    · rename_i hsemi
      rw [if_pos hsemi, Reader.bind_apply] at hdeep
      cases hadvance : Reader.advance s with
      | error e s1 => rfl
      | ok _ s1 =>
        rw [hadvance] at hdeep
        exact ih emitter items hdeep
    · rename_i hsemi
      rw [if_neg hsemi, Reader.bind_apply] at hdeep
      have hread : x s = y s := by
        refine h s ?_
        rintro ⟨got, s1, hbreaks⟩
        exact hdeep ⟨got, s1, by rw [hbreaks]⟩
      rw [hread]
      cases hitem : y s with
      | error e s1 => rfl
      | ok item s1 =>
        rw [hitem] at hdeep
        simp only [ih _ _ hdeep]

private theorem readingText_agrees {x y : Reader Item} (h : Reader.Agrees x y) {text : String}
    (hdeep : ¬ BreaksOff (Descent.fromText (Descent.itemsOver y) text)) :
    readingText x limit verbose text = readingText y limit verbose text := by
  rw [readingText, readingText]
  cases hbegin : begin? text with
  | error e => rfl
  | ok s =>
    exact reading_agrees h _ .empty [] fun hbreaks =>
      hdeep (Descent.fromText_breaksOff_iff.mpr ⟨s, hbegin, hbreaks⟩)

/-- What is said of an item by the token that it begins with. -/
def kindText (first : Token) : String :=
  match first.kind with
  | .defKeyword => "Parsed a function definition."
  | .externKeyword => "Parsed an extern."
  | _ => "Parsed a top-level expr."

def itemText (verbose : Bool) (piece : Token × Item) : String :=
  kindText piece.1 ++ "\n" ++ if verbose then "[ast] >>> " ++ piece.2.source ++ "\n" else ""

/-- What is printed behind all items, by what comes of a text. -/
def endText : Except SyntaxError (List Item) → String
  | .ok _ => ""
  | .error e => errorLine e

private theorem ofItems_eq (p : Progress) {pieces : List (Token × Item)}
    (hkinds : ∀ piece ∈ pieces, piece.2.description = kindText piece.1)
    (hflat : verbose = true → renderable limit (pieces.map Prod.snd) = true) :
    ofItems limit verbose p.error (pieces.map Prod.snd) =
      ⟨String.join (pieces.map (itemText verbose)) ++ endText p.result, none⟩ := by
  induction pieces with
  | nil =>
    rw [Progress.result]
    cases p.error <;> simp [ofItems, endText, errorLine]
  | cons piece rest ih =>
    obtain ⟨hkind, hkinds⟩ := List.forall_mem_cons.mp hkinds
    rw [List.map_cons, ofItems, hkind]
    cases verbose with
    | false =>
      rw [ih hkinds (by simp)]
      simp [after, itemText, String.append_assoc]
    | true =>
      have hall := hflat rfl
      simp only [renderable, List.map_cons, List.all_cons, Bool.and_eq_true] at hall
      rw [ih hkinds fun _ => hall.2]
      simp only [if_true, if_pos (of_decide_eq_true hall.1), after, itemText, List.map_cons,
        String.join_cons, String.append_assoc]

end Report

def Request.overText (t : Table) (text : String) : Request := ⟨text, true, .source, .ok t, ""⟩

private theorem Phrase.TopItem.description {levels : Nat} {ts : List Token} {item : Item}
    (h : TopItem t levels ts item) (hlexable : AllLexable ts) :
    ∃ first, ts.head? = some first ∧ item.description = Report.kindText first := by
  cases h with
  | @definition keyword _ _ proto _ hkey hproto _ =>
    have hname : proto.name ≠ anonymousName :=
      (hproto.writable fun u hu => hlexable u (by simp [hu])).name_ne
    refine ⟨keyword, rfl, ?_⟩
    rw [Item.description, functionDescription, if_neg hname, Report.kindText, hkey]
  | @external keyword _ _ hkey _ =>
    refine ⟨keyword, rfl, ?_⟩
    rw [Item.description, Report.kindText, hkey]
    rfl
  | @expression token _ body hbody =>
    obtain ⟨hdef, hexternal⟩ := kind_of_expression hbody.derives
    have hdescription : (Item.function (.anonymous body token.pos)).description =
        "Parsed a top-level expr." := by
      simp [Item.description, functionDescription, Function.anonymous]
    refine ⟨token, rfl, ?_⟩
    rw [hdescription, Report.kindText]
    split
    · exact absurd ‹_› hdef
    · exact absurd ‹_› hexternal
    · rfl

/-- An item with the first of the tokens that it was made of. -/
structure PieceOf (t : Table) (ts : List Token) (piece : Token × Item) : Prop where
  head : ts.head? = some piece.1
  madeOf : piece.2.MadeOf t ts

/-- The first tokens of a text are those of the items that were read from it. -/
theorem exists_pieces (ht : t.Legal) (levels : Nat) (text : String) : ∃ us pieces,
    (∀ k u, us[k]? = some u → (Cursor.ofText text .start).call k = .ok u) ∧
      Segmented (PieceOf t) us pieces ∧ pieces.map Prod.snd = collected t levels text ∧
      ∀ piece ∈ pieces, piece.2.description = Report.kindText piece.1 := by
  rw [collected]
  cases hbegin : begin? text with
  | error e => exact ⟨[], [], by simp, .nil, rfl, by simp⟩
  | ok s =>
    -- There may be a fault further on, so only the tokens that were passed are known.
    obtain ⟨us, s', hpass, hus⟩ := Progress.within_segmented ht (s.ahead.length + 1) s
    obtain ⟨_, hcalls⟩ := (behind_of_begin? hbegin).passes hpass
    simp only [Nat.zero_add] at hcalls
    have hplaced (u : Token) (hu : u ∈ us) : u.Placed := by
      obtain ⟨k, hk⟩ := List.getElem?_of_mem hu
      obtain ⟨hend, hcall⟩ := hcalls k u hk
      exact placed_of_mem_lexemes (Cursor.mem_lexemes_of_call hcall hend)
    obtain ⟨pieces, hpieces, hsegmented⟩ : ∃ pieces : List (Token × Item),
        pieces.map Prod.snd = (Progress.ofLookahead (.ofTable t) levels s).items ∧
          Segmented (fun ts piece => PieceOf t ts piece ∧
            piece.2.description = Report.kindText piece.1) us pieces := by
      refine hus.exists_map fun ts item hts hitem => ?_
      have hplaced (u : Token) (hu : u ∈ ts) := hplaced u (hts u hu)
      obtain ⟨first, hfirst, hkind⟩ := hitem.description fun u hu => (hplaced u hu).lexable
      exact ⟨(first, item), rfl, ⟨hfirst, hitem.madeOf ht hplaced⟩, hkind⟩
    refine ⟨us, pieces, fun k u hu => (hcalls k u hu).2, hsegmented.imp fun _ _ _ h => h.1,
      hpieces, fun piece hpiece => ?_⟩
    obtain ⟨_, _, hkind⟩ := hsegmented.forall_mem piece hpiece
    exact hkind

private theorem parse_error_cases (ht : t.Legal) {text : String} {e : SyntaxError}
    (hdeep : ¬ BreaksOff (parse t levels text)) (h : parse t levels text = .error e) :
    (∃ fault, e = .lexical fault) ∨ ∃ missing got, e = .unexpected missing got := by
  cases parse_error_declared ht h with
  | lexical fault => exact .inl ⟨fault, rfl⟩
  | unexpected missing got => exact .inr ⟨missing, got, rfl⟩
  | tooDeep got => exact absurd ⟨got, h⟩ hdeep

/-- What a session prints of a text, given the pieces that it consists of. -/
theorem Report.ofText_eq {limits : Limits} {text : String} {pieces : List (Token × Item)}
    (hpieces : pieces.map Prod.snd = collected t limits.levels text)
    (hkinds : ∀ piece ∈ pieces, piece.2.description = kindText piece.1)
    (hflat : verbose = true → renderable limits.source (collected t limits.levels text) = true) :
    ofText limits (.ok t) verbose text = ⟨String.join (pieces.map (itemText verbose)) ++
      endText (parse t limits.levels text), none⟩ := by
  rw [← hpieces] at hflat
  rw [ofText]
  cases hbegin : begin? text with
  | error e =>
    rw [collected_of_begin_error hbegin, List.map_eq_nil_iff] at hpieces
    subst hpieces
    rw [parse_of_begin_error hbegin]
    simp [ofItems, endText, errorLine]
  | ok s =>
    rw [collected_of_begin hbegin] at hpieces
    simp only [← hpieces, ofItems_eq _ hkinds hflat, parse_of_begin hbegin]

/-- With frames that suffice for the whole program, a report is the one with levels that suffice. -/
theorem Descent.report_eq (ht : t.Legal) {frames : Nat} {limits : Limits} {text : String}
    (hframes : ¬ BreaksOff (Descent.parse t frames text))
    (hlevels : ¬ BreaksOff (ExprLang.parse t limits.levels text)) :
    Descent.report t frames limits.source verbose text =
      .ok (Report.ofText limits (.ok t) verbose text) := by
  have hitems : ¬ BreaksOff (fromText (itemsOver (item t (frames - 2))) text) := by
    intro hbreaks
    obtain ⟨s, hbegin, hdeep⟩ := fromText_breaksOff_iff.mp hbreaks
    refine hframes (fromText_breaksOff_iff.mpr ⟨s, hbegin, ?_⟩)
    match frames with
    | 0 | 1 => exact breakOff_deep
    | frames + 2 => exact hdeep
  rw [parse_eq_itemsOver ht] at hlevels
  calc Descent.report t frames limits.source verbose text
      = Report.readingText (item t (frames - 2)) limits.source verbose text :=
        Report.readingText_agrees (item_frames_agree t (by omega)) hitems
    _ = Report.readingText (Reader.item (.ofTable t) (max limits.levels frames)) limits.source
          verbose text :=
        (Report.readingText_agrees (item_levels_agree ht (by omega)) hitems).symm
    _ = Report.readingText (Reader.item (.ofTable t) limits.levels) limits.source verbose text :=
        Report.readingText_agrees (item_more t (Nat.le_max_left _ _)) hlevels
    _ = .ok (Report.ofText limits (.ok t) verbose text) := Report.readingText_eq ht limits text

/-- What a session prints of a text that is not too deep to be read are its items in order, each by
the token that it begins with and with its text if that is wanted, and the error behind them, if
there is one. It is the same whether items are reported at once or in the end, and whatever limits
or frames the session and the parser have, as long as these suffice. The texts of all items together
are what a run over the text shows, and the error is the one that such a run ends with. -/
theorem report_agrees (ht : t.Legal) {limits : Limits} {text : String}
    (hparse : ¬ BreaksOff (parse t levels text))
    (hsession : ¬ BreaksOff (parse t limits.levels text)) (verbose : Bool)
    (hflat : verbose = true → renderable limits.source (collected t levels text) = true) :
    Report.readingText (Reader.item (.ofTable t) limits.levels) limits.source verbose text =
      .ok (Report.ofText limits (.ok t) verbose text) ∧
    (∀ frames, ¬ BreaksOff (Descent.parse t frames text) →
      Descent.parse t frames text = parse t levels text ∧
      Descent.report t frames limits.source verbose text =
        .ok (Report.ofText limits (.ok t) verbose text)) ∧
    (∃ us pieces, (∀ k u, us[k]? = some u → (Cursor.ofText text .start).call k = .ok u) ∧
      Segmented (PieceOf t) us pieces ∧ pieces.map Prod.snd = collected t levels text ∧
      Report.ofText limits (.ok t) verbose text =
        ⟨String.join (pieces.map (Report.itemText verbose)) ++
          Report.endText (parse t levels text), none⟩) ∧
    (∀ items, parse t levels text = .ok items → items = collected t levels text ∧
      ∀ other : Limits, ¬ BreaksOff (parse t other.levels text) →
        renderable other.source items = true →
        render other .source (.ok t) text = .ok (Text.joined "\n" (items.map Item.source))) ∧
    ∀ e, parse t levels text = .error e →
      ((∃ fault, e = .lexical fault) ∨ ∃ missing got, e = .unexpected missing got) ∧
      ∀ (platform : Platform) (files : Files), ¬ BreaksOff (parse t platform.run.levels text) →
        ∃ failure, ((Request.overText t text).run platform files).result = .error failure ∧
          failure.message = e.message ∧
          (Command.ofRun ((Request.overText t text).run platform files)).errors =
            Report.errorLine e := by
  have hsame := parse_eq_parse hparse hsession
  refine ⟨Report.readingText_eq ht limits text, fun frames hframes =>
    ⟨Descent.parse_eq ht hframes hparse, Descent.report_eq ht hframes hsession⟩, ?pieces,
    fun items h => ⟨parse_eq_ok_collected h, fun other hother hall => ?_⟩,
    fun e h => ⟨parse_error_cases ht hparse h, fun platform files hplatform => ?_⟩⟩
  case pieces =>
    obtain ⟨us, pieces, hcalls, hsegmented, hpieces, hkinds⟩ := exists_pieces ht levels text
    have hcollected := collected_eq_collected hparse hsession
    refine ⟨us, pieces, hcalls, hsegmented, hpieces, ?_⟩
    rw [Report.ofText_eq (hpieces.trans hcollected.symm) hkinds (by rwa [hcollected]), hsame]
  · have hrender : parse t other.levels text = .ok items := (parse_eq_parse hparse hother).trans h
    simp only [render, hrender, Limits.depth, Except.mapError, bind, Except.bind, hall, if_true]
    rfl
  · have hread : parse t platform.run.levels text = .error e :=
      (parse_eq_parse hparse hplatform).trans h
    have hrun : ((Request.overText t text).run platform files).result =
        .error (.render (.badSyntax e)) := by
      simp [Request.run, Request.overText, Request.rendered, Request.text, render, hread,
        Except.mapError, bind, Except.bind]
    refine ⟨.render (.badSyntax e), hrun, rfl, ?_⟩
    rw [Command.ofRun, hrun]
    rfl

/-- A session reports the name in front of a bracket that is refused, and then the bracket, as a run
over the same text does. -/
theorem report_agrees_nameThenBracket : ∃ e piece,
    parse .standard 150 "x )" = .error e ∧ piece.2.source = "x" ∧
      Report.ofText ⟨2, 2, 2⟩ (.ok .standard) true "x )" =
        ⟨Report.itemText true piece ++ Report.errorLine e, none⟩ ∧
      (Command.ofRun ((Request.overText .standard "x )").run
        ⟨.ample, ⟨2, 2, 2⟩, ⟨2, 2, 2⟩⟩ ⟨[], []⟩)).errors = Report.errorLine e := by
  have hbegin : begin? "x )" = .ok ⟨⟨.identifier "x", ⟨1, 1⟩⟩,
      [.ok ⟨.symbol ')', ⟨1, 3⟩⟩], ⟨1, 4⟩, 1⟩ := by cbv
  have hparse (levels : Nat) : parse .standard (levels + 1) "x )" =
      .error (.unexpected .expression ⟨.symbol ')', ⟨1, 3⟩⟩) := by
    rw [parse_of_begin hbegin]
    rfl
  have hdeep (levels : Nat) : ¬ BreaksOff (parse .standard (levels + 1) "x )") := by
    rw [hparse]
    rintro ⟨_, ⟨⟩⟩
  have hcollected : collected .standard 150 "x )" =
      [.function (.anonymous (.var "x" ⟨1, 1⟩) ⟨1, 1⟩)] := by
    rw [collected_of_begin hbegin]
    rfl
  obtain ⟨_, _, ⟨_, pieces, _, _, hpieces, hprinted⟩, _, herror⟩ :=
    @report_agrees _ 150 Table.standard_legal ⟨2, 2, 2⟩ "x )" (hdeep 149) (hdeep 1) true
      fun _ => by rw [hcollected]; decide
  rw [hcollected] at hpieces
  obtain ⟨piece, rfl⟩ := List.length_eq_one_iff.mp (by simpa using congrArg List.length hpieces)
  obtain ⟨_, hrun⟩ := herror _ (hparse 149)
  obtain ⟨_, _, _, herrors⟩ := hrun ⟨.ample, ⟨2, 2, 2⟩, ⟨2, 2, 2⟩⟩ ⟨[], []⟩ (hdeep 1)
  refine ⟨_, piece, hparse 149, ?_, by simpa [hparse, Report.endText] using hprinted, herrors⟩
  rw [List.map_singleton, List.singleton_inj] at hpieces
  rw [hpieces]
  rfl

/-- Some opening brackets. -/
def openings (n : Nat) : String := String.ofList (List.replicate n '(')

private def openingsFrom (column : Int) : Nat → List Token
  | 0 => []
  | n + 1 => ⟨.symbol '(', ⟨1, column⟩⟩ :: openingsFrom (column + 1) n

private theorem openingsFrom_append (column : Int) (m n : Nat) :
    openingsFrom column (m + n) = openingsFrom column m ++ openingsFrom (column + m) n := by
  induction m generalizing column with
  | zero => simp [openingsFrom]
  | succ m ih =>
    rw [Nat.add_right_comm, openingsFrom, openingsFrom, ih, List.cons_append]
    simp [Int.add_comm 1, Int.add_assoc]

private theorem length_openingsFrom (column : Int) (n : Nat) :
    (openingsFrom column n).length = n := by
  induction n generalizing column with
  | zero => rfl
  | succ n ih => rw [openingsFrom, List.length_cons, ih]

private theorem isSymbol_of_mem_openingsFrom {column : Int} {n : Nat} :
    ∀ u ∈ openingsFrom column n, u.isSymbol '(' = true := by
  induction n generalizing column with
  | zero => simp [openingsFrom]
  | succ n ih => exact List.forall_mem_cons.mpr ⟨rfl, ih⟩

private theorem tokenize_openings (n : Nat) : tokenize (openings n) = .ok (openingsFrom 1 n) := by
  have hfrom (column : Int) : (Cursor.lexemes ⟨List.replicate n '(', ⟨1, column⟩⟩).map (·.1) =
      (openingsFrom column n).map .ok := by
    induction n generalizing column with
    | zero =>
      rw [List.replicate_zero, Cursor.lexemes_eq_nil (Cursor.lexeme?_trivia .nil _)]
      rfl
    | succ n ih =>
      obtain ⟨hletter, hnumber, hblank, hcomment⟩ :=
        Text.isAlone_iff.mp (by decide : Text.isAlone '(' = true)
      have hfirst : Cursor.lexeme? ⟨List.replicate (n + 1) '(', ⟨1, column⟩⟩ =
          some (.ok ⟨.symbol '(', ⟨1, column⟩⟩, ⟨List.replicate n '(', ⟨1, column + 1⟩⟩) := by
        simp [Cursor.lexeme?, Cursor.skipTrivia_of_head hblank hcomment, hletter, hnumber,
          List.replicate_succ, Pos.after]
      rw [Cursor.lexemes_eq_cons hfirst, List.map_cons, ih, openingsFrom, List.map_cons]
  rw [tokenize_eq_ok_iff, Cursor.ofText, openings, String.toList_ofList]
  exact hfrom 1

section
variable {m n rest frames : Nat} {column : Int}

private theorem item_openings (hm : 0 < m) (hn : m < n) (hrest : rest < 3) :
    ∃ s s', begin? (openings n) = .ok s ∧ s.current = ⟨.symbol '(', ⟨1, 1⟩⟩ ∧
      Descent.item t (3 * m + rest + 2) s = .error (.tooDeep ⟨.symbol '(', ⟨1, 1 + m⟩⟩) s' := by
  obtain ⟨m, rfl⟩ := Nat.exists_eq_succ_of_ne_zero (Nat.ne_of_gt hm)
  obtain ⟨k, rfl⟩ := Nat.exists_eq_add_of_lt hn
  obtain ⟨finish, hbegin⟩ := begin?_eq_ofTokens (tokenize_openings (m + 1 + (k + 1)))
  rw [openingsFrom_append] at hbegin
  have hpass : Passes (.ofTokens finish 1 (_ ++ openingsFrom (1 + (m + 1 : Nat)) (k + 1)))
      (openingsFrom 1 (m + 1)) (.ofTokens finish _ _) :=
    .ofTokens 1 fun u hu => Token.ne_end_of_isSymbol (isSymbol_of_mem_openingsFrom u hu)
  have hread := Descent.item_of_brackets (t := t) isSymbol_of_mem_openingsFrom hpass
    (by simp [openingsFrom]) hrest
  rw [length_openingsFrom] at hread
  exact ⟨_, _, hbegin, rfl, hread⟩

private theorem parse_openings (hm : 0 < m) (hn : m < n) (hrest : rest < 3)
    (hframes : frames = 3 * m + rest + 4) (hcolumn : column = 1 + m) :
    Descent.parse t frames (openings n) = .error (.tooDeep ⟨.symbol '(', ⟨1, column⟩⟩) := by
  obtain ⟨s, s', hbegin, hfirst, hitem⟩ := item_openings (t := t) hm hn hrest
  have hprogram : frames - 1 = 3 * m + rest + 2 + 1 := by omega
  rw [Descent.parse, Descent.fromText_of_begin hbegin, hprogram, Descent.program,
    Descent.itemsOver, Reader.left_bind, Reader.turns_succ, hfirst, if_neg (by decide),
    Reader.bind_apply, Reader.itemTurn, Reader.current_bind, hfirst, if_neg (by decide),
    Reader.bind_apply, hitem, hcolumn]
  rfl

private theorem report_openings (hm : 0 < m) (hn : m < n) (hrest : rest < 3)
    (hframes : frames = 3 * m + rest + 3) (hcolumn : column = 1 + m) :
    Descent.report t frames limit verbose (openings n) =
      .ok ⟨Report.errorLine (.tooDeep ⟨.symbol '(', ⟨1, column⟩⟩), none⟩ := by
  obtain ⟨s, s', hbegin, hfirst, hitem⟩ := item_openings (t := t) hm hn hrest
  have hsession : frames - 1 = 3 * m + rest + 2 := by omega
  rw [Descent.report, hsession, Report.readingText, hbegin]
  change Report.reading _ _ _ (s.ahead.length + 1) _ s = _
  rw [Report.reading, hfirst, if_neg (by decide), if_neg (by decide), hitem, hcolumn]

end

/-- With so many frames, a session passes one more bracket than the parser before it gives up. -/
theorem report_of_openings :
    Descent.parse .standard 999 (openings 1000) =
        .error (.tooDeep ⟨.symbol '(', ⟨1, 332⟩⟩) ∧
      Descent.report .standard 999 2 false (openings 1000) =
        .ok ⟨Report.errorLine (.tooDeep ⟨.symbol '(', ⟨1, 333⟩⟩), none⟩ ∧
      (SyntaxError.tooDeep ⟨.symbol '(', ⟨1, 333⟩⟩).message ≠
        (SyntaxError.tooDeep ⟨.symbol '(', ⟨1, 332⟩⟩).message := by
  refine ⟨@parse_openings _ 331 1000 2 _ _ ?_ ?_ ?_ ?_ ?_,
    @report_openings _ _ _ 332 1000 0 _ _ ?_ ?_ ?_ ?_ ?_, by decide⟩ <;> omega

end ExprLang
