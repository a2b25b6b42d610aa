import ExprLang.Proofs.Reading.Item
import ExprLang.Proofs.Writing.Expression

/-! The source text of an item is read as the tokens of that item. -/
namespace ExprLang

/-- The names of a prototype are identifiers. -/
structure Prototype.Writable (p : Prototype) : Prop where
  name : Text.isIdentifier p.name = true
  params : ∀ param ∈ p.params, Text.isIdentifier param = true

/-- A prototype stands for an expression outside of all functions. -/
structure Prototype.Anonymous (p : Prototype) : Prop where
  name : p.name = anonymousName
  params : p.params = []

/-- An item whose names, numbers and operators can be written. -/
inductive Item.Writable (t : Table) : Item → Prop
  | external {proto : Prototype} (hproto : proto.Writable) : Writable t (.external proto)
  | function {f : Function} (hproto : f.proto.Writable ∨ f.proto.Anonymous)
      (hbody : f.body.Writable t) : Writable t (.function f)

namespace Prototype

def kinds (p : Prototype) : List TokenKind :=
  .identifier p.name :: .symbol '(' :: (p.params.map .identifier ++ [.symbol ')'])

/-- Those that stand in front of the body of a function. -/
def front (p : Prototype) : List TokenKind :=
  if p.name = anonymousName then [] else .defKeyword :: p.kinds

end Prototype

/-- The kinds of the tokens that an item is written with. -/
def Item.kinds : Item → List TokenKind
  | .external proto => .externKeyword :: proto.kinds
  | .function f => f.proto.front ++ f.body.kinds

variable {t : Table}

/-- The name of anonymous functions is none that can be written. -/
theorem isIdentifier_anonymousName : Text.isIdentifier anonymousName = false := by decide +kernel

theorem Prototype.Writable.name_ne {p : Prototype} (h : p.Writable) : p.name ≠ anonymousName := by
  intro hname
  have hidentifier := h.name
  rw [hname, isIdentifier_anonymousName] at hidentifier
  cases hidentifier

private theorem Prototype.Writable.spells {p : Prototype} (h : p.Writable) :
    Spells p.source p.kinds := by
  intro rest more _ hrest
  have hclose := hrest.symbol (c := ')') (by decide)
  have hparams : Spells (Text.joined " " (p.params.map id)) (p.params.flatMap ([.identifier ·])) :=
    Spells.joined rfl (by decide) (fun _ => parts_cons (by decide) (by decide))
      fun param hparam _ _ hstop hmore => hmore.identifier (h.params param hparam) hstop
  have hopen := (hparams _ _ (parts_cons (by decide) (by decide)) hclose).symbol (c := '(') (by decide)
  have hname := hopen.identifier h.name (parts_cons (by decide) (by decide))
  simpa [Prototype.source, prototypeText, Prototype.kinds, List.map_eq_flatMap] using hname

/-- The text of an item is read as its tokens, whatever stands behind it. -/
theorem Item.Writable.spells (ht : t.Legal) {item : Item} (hw : item.Writable t) :
    Spells item.source item.kinds := by
  intro rest more hstop hrest
  have hspace (cs : List Char) : Parts (' ' :: cs) := parts_cons (by decide) (by decide)
  cases hw with
  | external hproto =>
    have hproto := (hproto.spells _ _ hstop hrest).blank (c := ' ') (by decide)
    simpa [Item.source, Item.kinds] using spells_extern _ _ (hspace _) hproto
  | function hproto hbody =>
    have hbody := hbody.spells ht _ _ hstop hrest
    rcases hproto with hproto | hproto
    · have hname := hproto.name_ne
      have hbody := hbody.blank (c := ' ') (by decide)
      have hproto := (hproto.spells _ _ (hspace _) hbody).blank (c := ' ') (by decide)
      simpa [Item.source, Item.kinds, Function.source, Prototype.front, hname] using
        spells_def _ _ (hspace _) hproto
    · simpa [Item.source, Item.kinds, Function.source, Prototype.front, hproto.name] using hbody

/-- The text of a program is read as the tokens of its items. -/
theorem spells_sourceOf (ht : t.Legal) {items : List Item} (hw : ∀ item ∈ items, item.Writable t) :
    Spells (sourceOf items) (items.flatMap Item.kinds) :=
  Spells.joined rfl (by decide) (fun _ => parts_cons (by decide) (by decide))
    fun item hitem => (hw item hitem).spells ht

namespace Phrase
variable {levels : Nat} {ts us : List Token}

theorem Header.writable {proto : Prototype} (h : Header ts proto) (hlexable : AllLexable ts) :
    proto.Writable := by
  obtain ⟨h, _, hparams, _⟩ := h
  refine ⟨isIdentifier_of_lexable h (hlexable _ (by simp)), fun name hname => ?_⟩
  obtain ⟨param, hparam, rfl⟩ := List.mem_map.mp hname
  obtain ⟨name, hkind⟩ := Token.isName_iff.mp (hparams param hparam)
  rw [Token.valueText_of_kind hkind]
  exact isIdentifier_of_lexable hkind (hlexable param (by simp [hparam]))

/-- Every item that tokens of a text stand for can be written. -/
theorem TopItem.writable {item : Item} (h : TopItem t levels ts item) (hlexable : AllLexable ts) :
    item.Writable t := by
  cases h with
  | definition _ hproto hbody =>
    exact .function (.inl (hproto.writable fun token h => hlexable token (by simp [h])))
      (hbody.writable fun token h => hlexable token (by simp [h]))
  | external _ hproto =>
    exact .external (hproto.writable fun token h => hlexable token (by simp [h]))
  | expression hbody => exact .function (.inr ⟨rfl, rfl⟩) (hbody.writable hlexable)

theorem Program.writable {items : List Item} (h : Program t levels ts items)
    (hlexable : AllLexable ts) : ∀ item ∈ items, item.Writable t := by
  induction h with
  | nil => simp
  | semicolon _ _ ih => exact ih fun token h => hlexable token (by simp [h])
  | item hitem _ _ ih =>
    intro item h
    rcases List.mem_cons.mp h with rfl | h
    · exact hitem.writable fun token h => hlexable token (by simp [h])
    · exact ih (fun token h => hlexable token (by simp [h])) item h

/-- The tokens that a prototype is written with stand for it, up to its place. -/
theorem exists_header_of_kinds {p : Prototype} (h : ts.map Token.kind = p.kinds) : ∃ pos,
    Header ts { p with pos } := by
  obtain ⟨token, _, rfl, hname, h⟩ := List.map_eq_cons_iff.mp h
  obtain ⟨opening, _, rfl, hopen, h⟩ := List.map_eq_cons_iff.mp h
  obtain ⟨params, _, rfl, hparams, h⟩ := List.map_eq_append_iff.mp h
  obtain ⟨closing, rfl, hclose⟩ := List.map_eq_singleton_iff.mp h
  have hnames : ∀ param ∈ params, param.isName = true := by
    intro param hparam
    have hmem : param.kind ∈ p.params.map TokenKind.identifier := by
      rw [← hparams]
      exact List.mem_map_of_mem hparam
    obtain ⟨name, _, hkind⟩ := List.mem_map.mp hmem
    exact Token.isName_iff.mpr ⟨name, hkind.symm⟩
  have htexts : params.map Token.valueText = p.params := by
    have hshown := congrArg (List.map (·.value.shown)) hparams
    rw [List.map_map, List.map_map] at hshown
    exact hshown.trans (List.map_id _)
  refine ⟨token.pos, ?_⟩
  have hheader := Header.intro hname (Token.isSymbol_iff.mpr hopen) hnames
    (Token.isSymbol_iff.mpr hclose)
  rwa [htexts] at hheader

end Phrase
end ExprLang
