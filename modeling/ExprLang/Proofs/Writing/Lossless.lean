import ExprLang.Command.Render
import ExprLang.Proofs.Reading.Acceptance
import ExprLang.Proofs.Writing.Documents

/-! The JSON of a program holds all that there is to it. No two programs have the same JSON. -/
namespace ExprLang

/-- The place of a node, which its last two fields tell. -/
def Pos.ofFields? : List (String × Document) → Option Pos
  | [("line", .integer line), ("col", .integer column)] => some ⟨line, column⟩
  | _ => none

private theorem Pos.ofFields?_fields (pos : Pos) : Pos.ofFields? pos.fields = some pos := rfl

namespace Expr

mutual

/-- The expression of a document. -/
def ofDocument? : Document → Option Expr
  | .record (("kind", .text "number") :: ("value", .real value) :: place) =>
    (Pos.ofFields? place).map (.number value)
  | .record (("kind", .text "variable") :: ("name", .text name) :: place) =>
    (Pos.ofFields? place).map (.var name)
  | .record (("kind", .text "binary") :: ("op", .text operator) :: ("lhs", left) ::
      ("rhs", right) :: place) => do
    return .binary operator (← ofDocument? left) (← ofDocument? right) (← Pos.ofFields? place)
  | .record (("kind", .text "call") :: ("callee", .text callee) :: ("args", .list args) ::
      place) => do
    return .call callee (← ofDocuments? args) (← Pos.ofFields? place)
  | _ => none

def ofDocuments? : List Document → Option (List Expr)
  | [] => some []
  | arg :: rest => do return (← ofDocument? arg) :: (← ofDocuments? rest)

end

mutual

private theorem ofDocument?_document : (e : Expr) → ofDocument? e.document = some e
  | .number _ pos => by
    simp [document, Document.ofNumber, ofDocument?, Pos.ofFields?_fields]
  | .var _ pos => by
    simp [document, Document.ofVar, ofDocument?, Pos.ofFields?_fields]
  | .binary _ left right pos => by
    simp [document, Document.ofBinary, ofDocument?, Pos.ofFields?_fields,
      ofDocument?_document left, ofDocument?_document right]
  | .call _ args pos => by
    simp [document, Document.ofCall, ofDocument?, Pos.ofFields?_fields,
      ofDocuments?_argDocuments args]

private theorem ofDocuments?_argDocuments :
    (es : List Expr) → ofDocuments? (argDocuments es) = some es
  | [] => by simp [argDocuments, ofDocuments?]
  | arg :: rest => by
    simp [argDocuments, ofDocuments?, ofDocument?_document arg, ofDocuments?_argDocuments rest]

end

end Expr

def Document.text? : Document → Option String
  | .text s => some s
  | _ => none

/-- The prototype of a document. -/
def Prototype.ofDocument? : Document → Option Prototype
  | .record (("kind", .text "prototype") :: ("name", .text name) :: ("params", .list params) ::
      place) => do
    return ⟨name, ← params.mapM Document.text?, ← Pos.ofFields? place⟩
  | _ => none

theorem mapM_map_eq_some {α β : Type} {f : β → Option α} {g : α → β} {items : List α}
    (h : ∀ a ∈ items, f (g a) = some a) : (items.map g).mapM f = some items := by
  induction items with
  | nil => rfl
  | cons a rest ih =>
    obtain ⟨ha, hrest⟩ := List.forall_mem_cons.mp h
    simp [ha, ih hrest]

private theorem Prototype.ofDocument?_document (p : Prototype) :
    Prototype.ofDocument? p.document = some p := by
  have hparams : (p.params.map Document.text).mapM Document.text? = some p.params :=
    mapM_map_eq_some fun _ _ => rfl
  simp [document, ofDocument?, hparams, Pos.ofFields?_fields]

namespace Item

def ofDocument? : Document → Option Item
  | .record (("kind", .text "function") :: ("proto", proto) :: ("body", body) :: place) => do
    return .function ⟨← Prototype.ofDocument? proto, ← Expr.ofDocument? body, ← Pos.ofFields? place⟩
  | d => (Prototype.ofDocument? d).map .external

private theorem ofDocument?_document (item : Item) : ofDocument? item.document = some item := by
  cases item with
  | external proto =>
    have hproto := proto.ofDocument?_document
    rw [document, ofDocument?, hproto, Option.map_some]
    simp [Prototype.document]
  | function f =>
    simp [document, Function.document, Document.ofFunction, ofDocument?, Pos.ofFields?_fields,
      f.proto.ofDocument?_document, f.body.ofDocument?_document]

/-- The items of a program given as JSON. -/
def ofJson? (json : String) : Option (List Item) :=
  match Document.ofJson? json with
  | some (.list items) => items.mapM ofDocument?
  | _ => none

private theorem ofJson?_jsonOf (items : List Item) : ofJson? (jsonOf items) = some items := by
  rw [ofJson?, jsonOf, Document.ofJson?_json]
  exact mapM_map_eq_some fun item _ => item.ofDocument?_document

end Item

private theorem render_json_eq (limits : Limits) (t : Table) (text : String) :
    render limits .json (.ok t) text =
      ((parse t limits.levels text).mapError RenderError.badSyntax).bind fun items =>
        if renderable limits.json items then .ok (jsonOf items) else .error .tooDeep := rfl

/-- A text is shown as the JSON of its items. -/
theorem parse_of_render_json {limits : Limits} {t : Table} {text json : String}
    (h : render limits .json (.ok t) text = .ok json) :
    ∃ items, parse t limits.levels text = .ok items ∧ json = jsonOf items := by
  rw [render_json_eq] at h
  cases hparse : parse t limits.levels text with
  | error e =>
    rw [hparse] at h
    cases h
  | ok items =>
    refine ⟨items, rfl, ?_⟩
    rw [hparse] at h
    change (if renderable limits.json items then Except.ok (jsonOf items) else _) = _ at h
    split at h
    · cases h
      rfl
    · cases h

/-- The JSON of a text tells its items, with all their places and numbers. Texts have the same JSON
just if they have the same items, whatever tables they are read with. -/
theorem render_json_lossless {limits limits' : Limits} {t u : Table}
    {text other json json' : String} (h : render limits .json (.ok t) text = .ok json)
    (h' : render limits' .json (.ok u) other = .ok json') :
    ∃ items items', parse t limits.levels text = .ok items ∧
      parse u limits'.levels other = .ok items' ∧
      Item.ofJson? json = some items ∧ Item.ofJson? json' = some items' ∧
      (json = json' ↔ items = items') := by
  obtain ⟨items, hitems, rfl⟩ := parse_of_render_json h
  obtain ⟨items', hitems', rfl⟩ := parse_of_render_json h'
  have hread := Item.ofJson?_jsonOf items
  have hread' := Item.ofJson?_jsonOf items'
  refine ⟨items, items', hitems, hitems', hread, hread', fun hjson => ?_, fun he => by rw [he]⟩
  rw [hjson, hread'] at hread
  exact (Option.some.inj hread).symm

private theorem begin?_quotationMark : begin? "x\"y" = .ok ⟨⟨.identifier "x", ⟨1, 1⟩⟩,
    [.ok ⟨.symbol '"', ⟨1, 2⟩⟩, .ok ⟨.identifier "y", ⟨1, 3⟩⟩], ⟨1, 4⟩, 1⟩ := by
  rw [begin?_eq_ok_iff]
  cbv

private theorem begin?_blankAndQuotationMark : begin? "x \"y" = .ok ⟨⟨.identifier "x", ⟨1, 1⟩⟩,
    [.ok ⟨.symbol '"', ⟨1, 3⟩⟩, .ok ⟨.identifier "y", ⟨1, 4⟩⟩], ⟨1, 5⟩, 1⟩ := by
  rw [begin?_eq_ok_iff]
  cbv

/-- A quotation mark that is an operator is read back, and a blank in front of it is told. -/
theorem render_json_lossless_quotationMark : ∃ items json json',
    render ⟨2, 2, 2⟩ .json (.ok ⟨[('"', 1)]⟩) "x\"y" = .ok json ∧
      render ⟨2, 2, 2⟩ .json (.ok ⟨[('"', 1)]⟩) "x \"y" = .ok json' ∧
      Item.ofJson? json = some items ∧ json ≠ json' := by
  have hparse : parse ⟨[('"', 1)]⟩ 2 "x\"y" = .ok [.function (.anonymous
      (.binary "\"" (.var "x" ⟨1, 1⟩) (.var "y" ⟨1, 3⟩) ⟨1, 2⟩) ⟨1, 1⟩)] := by
    rw [parse_of_begin begin?_quotationMark]
    rfl
  have hparse' : parse ⟨[('"', 1)]⟩ 2 "x \"y" = .ok [.function (.anonymous
      (.binary "\"" (.var "x" ⟨1, 1⟩) (.var "y" ⟨1, 4⟩) ⟨1, 3⟩) ⟨1, 1⟩)] := by
    rw [parse_of_begin begin?_blankAndQuotationMark]
    rfl
  have hrender {items : List Item} {text : String} (h : parse ⟨[('"', 1)]⟩ 2 text = .ok items)
      (hflat : renderable 2 items = true) :
      render ⟨2, 2, 2⟩ .json (.ok ⟨[('"', 1)]⟩) text = .ok (jsonOf items) := by
    rw [render_json_eq, h]
    exact if_pos hflat
  have hjson := hrender hparse (by decide)
  have hjson' := hrender hparse' (by decide)
  obtain ⟨items, items', hitems, hitems', hread, _, hiff⟩ := render_json_lossless hjson hjson'
  refine ⟨items, _, _, hjson, hjson', hread, fun he => ?_⟩
  obtain rfl := hiff.mp he
  cases ((hparse.symm.trans hitems).trans hitems'.symm).trans hparse'

end ExprLang
