import ExprLang.Proofs.Lexing.Stepwise
import ExprLang.Proofs.Precedence.Check
import ExprLang.Proofs.Session.Report

/-! Nothing but declared errors comes of a text. What could go wrong besides is kept in view here: a
character may be read behind the end of the text, and a node may lack what it is asked for. -/
namespace ExprLang

/-- What goes wrong with a text. Callers are told of an error; the rest are slips on the way. -/
inductive Raised where
  | told (e : RenderError)
  /-- A character was read behind the end of the text. -/
  | pastEnd
  | badNode (fault : NodeError)

variable {α : Type} {entries : Entries} {text : String}

def telling (outcome : Except RenderError α) : Except Raised α := outcome.mapError .told

/-- A run goes well, or callers are told of one of some errors. -/
def Declares (errors : RenderError → Prop) (run : Except Raised α) : Prop :=
  ∀ raised, run = .error raised → ∃ e, raised = .told e ∧ errors e

private theorem declares_telling {errors : RenderError → Prop} {outcome : Except RenderError α}
    (h : ∀ e, outcome = .error e → errors e) : Declares errors (telling outcome) := by
  intro raised hraised
  cases outcome with
  | ok a => cases hraised
  | error e =>
    cases hraised
    exact ⟨e, rfl, h e rfl⟩

/-- The errors that callers are told of when a text is read. -/
inductive ReadingFault (entries : Entries) : RenderError → Prop
  | badTable {e : TableError} (hcheck : entries.check = .error e) :
      ReadingFault entries (.badTable e)
  | badSyntax {e : SyntaxError} (hdeclared : e.Declared) : ReadingFault entries (.badSyntax e)

/-- Check a proposal, and read a text with the table that it makes. -/
def readWith (read : Table → String → Except SyntaxError α) (entries : Entries) (text : String) :
    Except RenderError α := do
  let t ← entries.check.mapError .badTable
  (read t text).mapError .badSyntax

private theorem readWith_of_check (read : Table → String → Except SyntaxError α) {t : Table}
    (hcheck : entries.check = .ok t) :
    readWith read entries text = (read t text).mapError .badSyntax := by
  rw [readWith, hcheck]
  rfl

private theorem readWith_fault {read : Table → String → Except SyntaxError α}
    (hread : ∀ t e, entries.check = .ok t → read t text = .error e → e.Declared) {e : RenderError}
    (h : readWith read entries text = .error e) : ReadingFault entries e := by
  cases hcheck : entries.check with
  | error fault =>
    rw [readWith, hcheck] at h
    cases h
    exact .badTable hcheck
  | ok t =>
    rw [readWith_of_check read hcheck] at h
    cases hresult : read t text with
    | ok a =>
      rw [hresult] at h
      cases h
    | error fault =>
      rw [hresult] at h
      cases h
      exact .badSyntax (hread t fault hcheck hresult)

private theorem exists_of_readWith {read : Table → String → Except SyntaxError α} {a : α}
    (h : readWith read entries text = .ok a) :
    ∃ t, entries.check = .ok t ∧ read t text = .ok a := by
  cases hcheck : entries.check with
  | error fault =>
    rw [readWith, hcheck] at h
    cases h
  | ok t =>
    rw [readWith_of_check read hcheck] at h
    cases hresult : read t text with
    | ok found =>
      rw [hresult] at h
      cases h
      exact ⟨t, rfl, hresult⟩
    | error fault =>
      rw [hresult] at h
      cases h

/-- Where the reading of a text begins, if its characters are read one at a time. -/
def beginBySteps (text : String) : Except Raised (Except SyntaxError Lookahead) :=
  match (Cursor.ofText text .start).foundBySteps with
  | none => .error .pastEnd
  | some (found, after) => .ok ((Lookahead.ofLexed found after.pos).mapError .lexical)

private theorem beginBySteps_eq (text : String) : beginBySteps text = .ok (begin? text) := by
  rw [beginBySteps, Cursor.foundBySteps_eq]
  rfl

/-- Check a proposal, and read a text with the table that it makes, one character at a time. -/
def readBySteps (read : Table → Lookahead → Except SyntaxError α) (entries : Entries)
    (text : String) : Except Raised α := do
  let t ← telling (entries.check.mapError .badTable)
  let s ← beginBySteps text
  telling ((s.bind (read t)).mapError .badSyntax)

private theorem readBySteps_eq (read : Table → Lookahead → Except SyntaxError α) (entries : Entries)
    (text : String) : readBySteps read entries text =
      telling (readWith (fun t text => (begin? text).bind (read t)) entries text) := by
  rw [readBySteps, readWith, beginBySteps_eq]
  cases entries.check <;> rfl

/-- The items of a program, read one character at a time. -/
def parseBySteps (levels : Nat) : Entries → String → Except Raised (List Item) :=
  readBySteps fun t s => (Progress.ofLookahead (.ofTable t) levels s).result

/-- An expression that takes up a whole text, read one character at a time. -/
def expressionBySteps (levels : Nat) : Entries → String → Except Raised Expr :=
  readBySteps fun t s =>
    match Reader.expression (.ofTable t) levels s with
    | .error e _ => .error e
    | .ok e s =>
      if s.current.kind = .endOfInput then .ok e
      else .error (.unexpected .endOfInput s.current)

private theorem parseBySteps_eq (levels : Nat) (entries : Entries) (text : String) :
    parseBySteps levels entries text = telling (readWith (parse · levels) entries text) :=
  readBySteps_eq _ _ _

private theorem expressionBySteps_eq (levels : Nat) (entries : Entries) (text : String) :
    expressionBySteps levels entries text =
      telling (readWith (parseExpression · levels) entries text) :=
  readBySteps_eq _ _ _

private theorem parseExpression_error_declared {t : Table} (ht : t.Legal) {levels : Nat}
    {e : SyntaxError} (h : parseExpression t levels text = .error e) : e.Declared := by
  cases hbegin : begin? text with
  | error e' =>
    obtain ⟨fault, rfl, _⟩ := call_of_begin?_eq_error hbegin
    rw [parseExpression_of_begin_error hbegin] at h
    cases h
    exact .lexical fault
  | ok s =>
    rw [parseExpression_of_begin hbegin] at h
    cases hread : Reader.expression (.ofTable t) levels s with
    | error e' s' =>
      simp only [hread] at h
      cases h
      exact (Reader.expression_fails ht _ _ _ _ hread).declared
    | ok _ s' =>
      simp only [hread] at h
      split at h
      · cases h
      · cases h
        exact .unexpected _ _

def jsonOfNodes (nodes : List Node) : Except NodeError String := do
  let documents ← Node.argDocuments nodes
  return (Document.list documents).json 0

/-- An object that is no node has no document, so a list of nodes need not have one. -/
example : jsonOfNodes [.foreign none] = .error (.noField (.foreign none) "to_dict") := by rfl

/-- Nodes as source text, emitted one after the other. -/
def sourceOfNodes (nodes : List Node) : Except NodeError String := do
  let emitter ← Emitter.empty.emitAll nodes
  return emitter.output

private theorem Node.document_toNode_item (item : Item) :
    item.toNode.document = .ok item.document := by
  cases item with
  | external proto => rfl
  | function f =>
    rw [Item.toNode, document, document, document_toNode]
    rfl

private theorem jsonOfNodes_eq (items : List Item) :
    jsonOfNodes (items.map Item.toNode) = .ok (jsonOf items) := by
  have hdocuments : Node.argDocuments (items.map Item.toNode) = .ok (items.map Item.document) := by
    induction items with
    | nil => rfl
    | cons item rest ih =>
      rw [List.map_cons, Node.argDocuments, Node.document_toNode_item, ih]
      rfl
  rw [jsonOfNodes, hdocuments]
  rfl

/-- What is read from a text can be emitted. -/
theorem sourceOfNodes_eq {t : Table} (ht : t.Legal) {levels : Nat} {items : List Item}
    (h : parse t levels text = .ok items) :
    sourceOfNodes (items.map Item.toNode) = .ok (sourceOf items) := by
  have hitems (item : Item) (hitem : item ∈ items) : item.toNode.itemSource = .ok item.source :=
    (parse_writable ht h item hitem).itemSource
  rw [sourceOfNodes, Emitter.emitAll_toNodes hitems]
  rfl

private def shown (limits : Limits) (mode : Mode) (items : List Item) : Except RenderError String :=
  match mode with
  | .unknown name => .error (.unknownMode name)
  | mode =>
    if renderable (limits.depth mode) items then
      .ok (if mode = .json then jsonOf items else sourceOf items)
    else .error .tooDeep

private theorem render_eq (limits : Limits) {mode : Mode} (hmode : mode ≠ .tokens)
    (entries : Entries) (text : String) : render limits mode entries.check text =
      (readWith (parse · limits.levels) entries text).bind (shown limits mode) := by
  rw [readWith]
  cases entries.check with
  | error e => cases mode <;> first | rfl | exact absurd rfl hmode
  | ok t =>
    cases mode with
    | tokens => exact absurd rfl hmode
    | _ =>
      simp only [render]
      rfl

/-- What is shown of items, node by node. -/
def shownBySteps (limits : Limits) (mode : Mode) (items : List Item) : Except Raised String :=
  match mode with
  | .unknown name => telling (.error (.unknownMode name))
  | mode =>
    if renderable (limits.depth mode) items then
      (if mode = .json then jsonOfNodes (items.map Item.toNode)
        else sourceOfNodes (items.map Item.toNode)).mapError .badNode
    else telling (.error .tooDeep)

private theorem shownBySteps_eq {t : Table} (ht : t.Legal) (limits : Limits) (mode : Mode)
    {levels : Nat} {items : List Item} (h : parse t levels text = .ok items) :
    shownBySteps limits mode items = telling (shown limits mode items) := by
  have hjson := jsonOfNodes_eq items
  have hsource := sourceOfNodes_eq ht h
  by_cases hflat : renderable (limits.depth mode) items = true <;> cases mode <;>
    simp [shownBySteps, shown, hflat, hjson, hsource, telling, Except.mapError]

/-- What is shown of a text that is read one character at a time. -/
def renderBySteps (limits : Limits) (mode : Mode) (entries : Entries) (text : String) :
    Except Raised String :=
  match mode with
  | .tokens =>
    match tokenizeBySteps text with
    | none => .error .pastEnd
    | some tokens => telling ((tokens.map listing).mapError fun e => .badSyntax (.lexical e))
  | mode => (parseBySteps limits.levels entries text).bind (shownBySteps limits mode)

/-- Nothing that is read lacks what it is asked for when it is shown. -/
theorem renderBySteps_eq (hdistinct : entries.Distinct) (limits : Limits) (mode : Mode)
    (text : String) : renderBySteps limits mode entries text =
      telling (render limits mode entries.check text) := by
  by_cases hmode : mode = .tokens
  · subst hmode
    rw [renderBySteps, tokenizeBySteps_eq]
    rfl
  · have hsteps : renderBySteps limits mode entries text =
        (parseBySteps limits.levels entries text).bind (shownBySteps limits mode) := by
      cases mode <;> first | rfl | exact absurd rfl hmode
    rw [hsteps, render_eq limits hmode, parseBySteps_eq]
    cases hread : readWith (parse · limits.levels) entries text with
    | error e => rfl
    | ok items =>
      obtain ⟨t, hcheck, hparse⟩ := exists_of_readWith hread
      exact shownBySteps_eq (hdistinct.legal hcheck) limits mode hparse

/-- The errors that callers are told of when a text is rendered. -/
inductive RenderingFault (limits : Limits) (mode : Mode) (entries : Entries) (text : String) :
    RenderError → Prop
  | reading {e : RenderError} (hreading : ReadingFault entries e) :
      RenderingFault limits mode entries text e
  | unknownMode {name : String} (hmode : mode = .unknown name) :
      RenderingFault limits mode entries text (.unknownMode name)
  | tooDeep {items : List Item} (hitems : readWith (parse · limits.levels) entries text = .ok items)
      (hdeep : renderable (limits.depth mode) items = false) :
      RenderingFault limits mode entries text .tooDeep

private theorem render_fault (hdistinct : entries.Distinct) {limits : Limits} {mode : Mode}
    {e : RenderError} (h : render limits mode entries.check text = .error e) :
    RenderingFault limits mode entries text e := by
  by_cases hmode : mode = .tokens
  · subst hmode
    rw [render] at h
    cases htokens : tokenize text with
    | ok tokens =>
      rw [htokens] at h
      cases h
    | error fault =>
      rw [htokens] at h
      cases h
      exact .reading (.badSyntax (.lexical fault))
  rw [render_eq limits hmode] at h
  cases hread : readWith (parse · limits.levels) entries text with
  | error fault =>
    rw [hread] at h
    cases h
    exact .reading (readWith_fault (fun t _ hcheck => parse_error_declared (hdistinct.legal hcheck))
      hread)
  | ok items =>
    rw [hread] at h
    change shown limits mode items = _ at h
    rw [shown.eq_def] at h
    split at h
    · cases h
      exact .unknownMode rfl
    · split at h
      · cases h
      · rename_i hdeep
        cases h
        exact .tooDeep hread (Bool.eq_false_iff.mpr hdeep)

/-- The report on a text that is read one character at a time. -/
def Report.bySteps (limits : Limits) (t : Table) (verbose : Bool) (text : String) :
    Except Raised Report := do
  match ← beginBySteps text with
  | .error e => return ⟨errorLine e, none⟩
  | .ok s =>
    (reading (Reader.item (.ofTable t) limits.levels) limits.source verbose (s.ahead.length + 1)
      .empty s).mapError .badNode

private theorem Report.bySteps_eq {t : Table} (ht : t.Legal) (limits : Limits) (verbose : Bool)
    (text : String) : bySteps limits t verbose text = .ok (ofText limits (.ok t) verbose text) := by
  have hreading : bySteps limits t verbose text =
      (readingText (Reader.item (.ofTable t) limits.levels) limits.source verbose text).mapError
        .badNode := by
    rw [bySteps, readingText, beginBySteps_eq]
    change (match begin? text with
      | .error e => _
      | .ok s => _) = _
    cases begin? text <;> rfl
  rw [hreading, readingText_eq ht]
  rfl

/-- A text is always read to its end or to an error that callers are told of, whatever the text and
the table are. A token is found anywhere, and tokens are listed up to a fault. Reading fails for a
table that is refused and for an error of syntax, and rendering also for an unknown mode and for a
program that is too deep. Over a table that passes the check, a session without echo only prints. -/
theorem ends_declared (limits : Limits) (table : Option (List (Value × Value))) (text : String) :
    (∀ c : Cursor, c.tokenBySteps = some c.token) ∧
    tokenizeBySteps text = some (tokenize text) ∧
    Declares (ReadingFault (.given table)) (parseBySteps limits.levels (.given table) text) ∧
    Declares (ReadingFault (.given table)) (expressionBySteps limits.levels (.given table) text) ∧
    (∀ mode, renderBySteps limits mode (.given table) text =
        telling (render limits mode (Entries.given table).check text) ∧
      Declares (RenderingFault limits mode (.given table) text)
        (renderBySteps limits mode (.given table) text)) ∧
    ∀ t, (Entries.given table).check = .ok t →
      parseBySteps limits.levels (.given table) text =
        telling ((parse t limits.levels text).mapError .badSyntax) ∧
      expressionBySteps limits.levels (.given table) text =
        telling ((parseExpression t limits.levels text).mapError .badSyntax) ∧
      ∃ front, Report.bySteps limits t false text =
          .ok ⟨front ++ Report.endText (parse t limits.levels text), none⟩ ∧
        Report.ofText limits (.ok t) false text =
          ⟨front ++ Report.endText (parse t limits.levels text), none⟩ := by
  have hdistinct := Entries.given_distinct table
  generalize Entries.given table = entries at hdistinct ⊢
  refine ⟨Cursor.tokenBySteps_eq, tokenizeBySteps_eq text, ?parse, ?expression, fun mode => ?render,
    fun t hcheck => ?valid⟩
  case parse =>
    rw [parseBySteps_eq]
    exact declares_telling fun _ => readWith_fault fun t _ hcheck =>
      parse_error_declared (hdistinct.legal hcheck)
  case expression =>
    rw [expressionBySteps_eq]
    exact declares_telling fun _ => readWith_fault fun t _ hcheck =>
      parseExpression_error_declared (hdistinct.legal hcheck)
  case render =>
    refine ⟨renderBySteps_eq hdistinct limits mode text, ?_⟩
    rw [renderBySteps_eq hdistinct]
    exact declares_telling fun _ => render_fault hdistinct
  case valid =>
    have ht := hdistinct.legal hcheck
    obtain ⟨_, pieces, _, _, hpieces, hkinds⟩ := exists_pieces ht limits.levels text
    have hreport := @Report.ofText_eq t false limits text pieces hpieces hkinds (by simp)
    refine ⟨?_, ?_, _, (Report.bySteps_eq ht limits false text).trans (congrArg _ hreport), hreport⟩
    · rw [parseBySteps_eq, readWith_of_check (parse · limits.levels) hcheck]
    · rw [expressionBySteps_eq, readWith_of_check (parseExpression · limits.levels) hcheck]

/-- A call that breaks off is an error that callers are told of, and a session prints it. -/
theorem ends_declared_openCall : ∃ e printed,
    parseBySteps 2 (.given (some [(.text "+", .integer 1)])) "f(" = .error (.told e) ∧
      ReadingFault (.given (some [(.text "+", .integer 1)])) e ∧
      Report.bySteps ⟨2, 2, 2⟩ ⟨[('+', 1)]⟩ false "f(" = .ok ⟨printed, none⟩ := by
  have hcheck : (Entries.given (some [(.text "+", .integer 1)])).check = .ok ⟨[('+', 1)]⟩ := by
    decide +kernel
  have hbegin : begin? "f(" = .ok ⟨⟨.identifier "f", ⟨1, 1⟩⟩, [.ok ⟨.symbol '(', ⟨1, 2⟩⟩],
      ⟨1, 3⟩, 1⟩ := by cbv
  have hparse : parse ⟨[('+', 1)]⟩ 2 "f(" =
      .error (.unexpected .expression ⟨.endOfInput, ⟨1, 3⟩⟩) := by
    rw [parse_of_begin hbegin]
    rfl
  obtain ⟨_, _, hdeclares, _, _, hvalid⟩ :=
    ends_declared ⟨2, 2, 2⟩ (some [(.text "+", .integer 1)]) "f("
  obtain ⟨hread, _, front, hreport, _⟩ := hvalid _ hcheck
  rw [hparse] at hread
  obtain ⟨e, he, hfault⟩ := hdeclares _ hread
  cases he
  exact ⟨_, _, hread, hfault, hreport⟩

end ExprLang
