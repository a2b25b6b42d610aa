import ExprLang.Proofs.Writing.Lossless
import ExprLang.Proofs.Writing.WellFormed

/-! The listing of the tokens of a text holds all that there is to them. Nothing in a line is
escaped: it can be cut apart because no token has white space in it. -/
namespace ExprLang

private def BlankFree (cs : List Char) : Prop := ∀ c ∈ cs, Text.isBlank c = false

instance (cs : List Char) : Decidable (BlankFree cs) := List.decidableBAll _ cs

namespace BlankFree
variable {cs ds : List Char}

private theorem not_mem (h : BlankFree cs) {c : Char} (hc : Text.isBlank c = true) : c ∉ cs := by
  intro hmem
  rw [h c hmem] at hc
  cases hc

private theorem append (hcs : BlankFree cs) (hds : BlankFree ds) : BlankFree (cs ++ ds) :=
  fun c hc => (List.mem_append.mp hc).elim (hcs c) (hds c)

private theorem cons (hcs : BlankFree cs) {c : Char} (hc : Text.isBlank c = false) :
    BlankFree (c :: cs) :=
  List.forall_mem_cons.mpr ⟨hc, hcs⟩

end BlankFree

private theorem blankFree_of_isNumberChar (cs : List Char)
    (h : ∀ c ∈ cs, Document.isNumberChar c = true) :
    BlankFree cs := by
  intro c hc
  have hnumber := h c hc
  simp only [Document.isNumberChar, Bool.or_eq_true, List.contains_eq_mem, decide_eq_true_eq,
    List.mem_cons, List.not_mem_nil, or_false] at hnumber
  rcases hnumber with hdigit | hmark
  · exact (Text.of_isNumberPart (by simp [isNumberPart, hdigit])).2.1
  · rcases hmark with rfl | rfl | rfl | rfl | rfl | rfl | rfl | rfl <;> decide

private theorem blankFree_of_isWholeChar (cs : List Char)
    (h : ∀ c ∈ cs, Document.isWholeChar c = true) :
    BlankFree cs := by
  refine blankFree_of_isNumberChar cs fun c hc => ?_
  have hwhole := h c hc
  simp only [Document.isWholeChar, Bool.or_eq_true, decide_eq_true_eq] at hwhole
  rcases hwhole with hdigit | rfl
  · exact Document.isNumberChar_of_isAsciiDigit hdigit
  · decide

private theorem Text.isBlank_tab : isBlank '\t' = true := by decide

private theorem Text.blankFree_of_isIdentifier {name : String} (h : isIdentifier name = true) :
    BlankFree name.toList := by
  obtain ⟨first, rest, hname, hfirst, hrest, _⟩ := isIdentifier_iff.mp h
  rw [hname]
  refine BlankFree.cons (fun c hc => ?_) (isBlank_of_isLetter hfirst)
  rw [Bool.eq_false_iff]
  intro hblank
  have hpart := hrest c hc
  rw [isWordPart_of_isBlank hblank] at hpart
  cases hpart

namespace TokenKind
variable {kind : TokenKind}

private theorem blankFree_typeName (h : kind.Lexable) : BlankFree kind.typeName.toList := by
  cases kind with
  | symbol c =>
    have hmark : (TokenKind.symbol c).typeName.toList = [c] := String.toList_singleton c
    rw [hmark]
    exact List.forall_mem_singleton.mpr (Text.isAlone_iff.mp h).2.2.1
  | endOfInput => exact absurd h id
  | identifier _ =>
    change BlankFree "IDENT".toList
    decide
  | number _ =>
    change BlankFree "NUMBER".toList
    decide
  | defKeyword | externKeyword => decide

private theorem blankFree_value (h : kind.Lexable) : BlankFree kind.value.shown.toList := by
  cases kind with
  | symbol c =>
    have hmark : (TokenKind.symbol c).value.shown.toList = [c] := String.toList_singleton c
    rw [hmark]
    exact List.forall_mem_singleton.mpr (Text.isAlone_iff.mp h).2.2.1
  | identifier name => exact Text.blankFree_of_isIdentifier h
  | number x =>
    exact blankFree_of_isNumberChar _ (List.all_eq_true.mp (Document.isFractional_text x).1)
  | endOfInput => exact absurd h id
  | defKeyword | externKeyword => decide

/-- The kind of a token, by the name of its type and its text. The type of a symbol is no name. -/
def ofListed? (type value : List Char) : Option TokenKind :=
  if type = "DEF".toList then some .defKeyword
  else if type = "EXTERN".toList then some .externKeyword
  else if type = "IDENT".toList then some (.identifier (String.ofList value))
  else if type = "NUMBER".toList then (Double.ofText? value).map .number
  else type.head?.map .symbol

private theorem ofListed?_listed (h : kind.Lexable) :
    ofListed? kind.typeName.toList kind.value.shown.toList = some kind := by
  cases kind with
  | number x =>
    change ofListed? "NUMBER".toList x.text.toList = _
    rw [ofListed?, if_neg (by decide), if_neg (by decide), if_neg (by decide),
      if_pos rfl, Double.ofText?_text, Option.map_some]
  | identifier name =>
    change ofListed? "IDENT".toList name.toList = _
    rw [ofListed?, if_neg (by decide), if_neg (by decide), if_pos rfl,
      String.ofList_toList]
  | symbol c =>
    have hmark : (TokenKind.symbol c).typeName.toList = [c] := String.toList_singleton c
    have hne (cs : List Char) (hcs : cs.length ≠ 1) : [c] ≠ cs := fun he => hcs (he ▸ rfl)
    rw [hmark, ofListed?, if_neg (hne _ (by decide)), if_neg (hne _ (by decide)),
      if_neg (hne _ (by decide)), if_neg (hne _ (by decide))]
    rfl
  | endOfInput => exact absurd h id
  | _ => rfl

end TokenKind

namespace Pos

private def listed (pos : Pos) :
    List Char := (toString pos.line).toList ++ ':' :: (toString pos.column).toList

private theorem blankFree_listed (pos : Pos) : BlankFree pos.listed :=
  (blankFree_of_isWholeChar _ (Document.toString_integer pos.line).2.2).append
    ((blankFree_of_isWholeChar _ (Document.toString_integer pos.column).2.2).cons (by decide))

def ofListed? (cs : List Char) : Option Pos :=
  match Text.cutAt ':' cs with
  | [line, column] => some ⟨Document.wholeNumber line, Document.wholeNumber column⟩
  | _ => none

private theorem ofListed?_listed (pos : Pos) : ofListed? pos.listed = some pos := by
  have hmark (n : Int) : ':' ∉ (toString n).toList := Document.not_mem_toString n (by decide)
  have hcut : Text.cutAt ':' pos.listed =
      [(toString pos.line).toList, (toString pos.column).toList] := by
    rw [listed, Text.cutAt_append_mark, Text.cutAt_of_not_mem (hmark _),
      Text.cutAt_of_not_mem (hmark _)]
    rfl
  rw [ofListed?, hcut]
  dsimp only
  rw [(Document.toString_integer pos.line).1, (Document.toString_integer pos.column).1]

end Pos

namespace Token
variable {token : Token}

private theorem toList_listed (token : Token) : token.listed.toList =
    token.pos.listed ++ '\t' :: (token.kind.typeName.toList ++ '\t' :: token.valueText.toList) := by
  simp [listed, Pos.listed]

private theorem blankFree_listed (h : token.kind.Lexable) : BlankFree token.pos.listed ∧
    BlankFree token.kind.typeName.toList ∧ BlankFree token.valueText.toList :=
  ⟨token.pos.blankFree_listed, TokenKind.blankFree_typeName h, TokenKind.blankFree_value h⟩

private theorem cutAt_listed (h : token.kind.Lexable) : Text.cutAt '\t' token.listed.toList =
    [token.pos.listed, token.kind.typeName.toList, token.valueText.toList] := by
  obtain ⟨hplace, htype, hvalue⟩ := blankFree_listed h
  rw [toList_listed, Text.cutAt_append_mark, Text.cutAt_append_mark,
    Text.cutAt_of_not_mem (hplace.not_mem Text.isBlank_tab),
    Text.cutAt_of_not_mem (htype.not_mem Text.isBlank_tab),
    Text.cutAt_of_not_mem (hvalue.not_mem Text.isBlank_tab)]
  rfl

private theorem count_tab_listed (h : token.kind.Lexable) : token.listed.toList.count '\t' = 2 := by
  obtain ⟨hplace, htype, hvalue⟩ := blankFree_listed h
  rw [toList_listed, List.count_append, List.count_cons_self, List.count_append,
    List.count_cons_self, List.count_eq_zero.mpr (hplace.not_mem Text.isBlank_tab),
    List.count_eq_zero.mpr (htype.not_mem Text.isBlank_tab),
    List.count_eq_zero.mpr (hvalue.not_mem Text.isBlank_tab)]

private theorem lineFeed_not_mem_listed (h : token.kind.Lexable) : '\n' ∉ token.listed.toList := by
  obtain ⟨hplace, htype, hvalue⟩ := blankFree_listed h
  simp [toList_listed, hplace.not_mem Text.isBlank_lineFeed, htype.not_mem Text.isBlank_lineFeed,
    hvalue.not_mem Text.isBlank_lineFeed]

def ofListed? (line : List Char) : Option Token :=
  match Text.cutAt '\t' line with
  | [place, type, value] => do return ⟨← TokenKind.ofListed? type value, ← Pos.ofListed? place⟩
  | _ => none

private theorem ofListed?_listed (h : token.kind.Lexable) :
    ofListed? token.listed.toList = some token := by
  have hkind : TokenKind.ofListed? token.kind.typeName.toList token.valueText.toList =
      some token.kind := TokenKind.ofListed?_listed h
  simp [ofListed?, cutAt_listed h, hkind, Pos.ofListed?_listed]

end Token

section
variable {ts : List Token}

/-- The lines of a listing are those of its tokens. -/
theorem cutAt_listing (hts : ∀ token ∈ ts, token.kind.Lexable) (hne : ts ≠ []) :
    Text.cutAt '\n' (listing ts).toList = ts.map (·.listed.toList) := by
  rw [listing, Text.cutAt_joined rfl (by simpa using hne), List.flatMap_map]
  calc ts.flatMap (fun token => Text.cutAt '\n' token.listed.toList)
      = ts.flatMap (fun token => [token.listed.toList]) :=
        List.flatMap_congr fun token htoken =>
          Text.cutAt_of_not_mem (Token.lineFeed_not_mem_listed (hts token htoken))
    _ = ts.map (·.listed.toList) := List.map_eq_flatMap.symm

private theorem listing_eq_empty_iff (hts : ∀ token ∈ ts, token.kind.Lexable) :
    listing ts = "" ↔ ts = [] := by
  refine ⟨fun h => ?_, fun h => by rw [h]; rfl⟩
  by_contra hne
  have hlines := cutAt_listing hts hne
  rw [h] at hlines
  obtain ⟨token, rest, rfl⟩ := List.exists_cons_of_ne_nil hne
  have hline : [] = token.listed.toList := (List.cons.inj hlines).1
  simp [Token.toList_listed] at hline

/-- The tokens that a listing tells. -/
def ofListing? (text : String) : Option (List Token) :=
  if text = "" then some [] else (Text.cutAt '\n' text.toList).mapM Token.ofListed?

private theorem mapM_cutAt_listing (hts : ∀ token ∈ ts, token.kind.Lexable) (hne : ts ≠ []) :
    (Text.cutAt '\n' (listing ts).toList).mapM Token.ofListed? = some ts := by
  rw [cutAt_listing hts hne]
  exact mapM_map_eq_some fun token htoken => Token.ofListed?_listed (hts token htoken)

private theorem ofListing?_listing (hts : ∀ token ∈ ts, token.kind.Lexable) :
    ofListing? (listing ts) = some ts := by
  by_cases hne : ts = []
  · rw [ofListing?, if_pos ((listing_eq_empty_iff hts).mpr hne), hne]
  · rw [ofListing?, if_neg ((listing_eq_empty_iff hts).not.mpr hne), mapM_cutAt_listing hts hne]

end

variable {limits limits' : Limits} {table table' : Except TableError Table} {text other : String}

private theorem render_tokens_eq : render limits .tokens table text =
    ((tokenize text).map listing).mapError fun e => .badSyntax (.lexical e) := rfl

private theorem render_tokens_of_tokenize {ts : List Token} (h : tokenize text = .ok ts) :
    render limits .tokens table text = .ok (listing ts) := by
  rw [render_tokens_eq, h]
  rfl

/-- Texts are listed alike just if they have the same tokens. -/
theorem render_tokens_eq_iff :
    render limits .tokens table text = render limits' .tokens table' other ↔
      tokenize text = tokenize other := by
  refine ⟨fun h => ?_, fun h => by rw [render_tokens_eq, render_tokens_eq, h]⟩
  rw [render_tokens_eq, render_tokens_eq] at h
  cases htext : tokenize text with
  | error e =>
    cases hother : tokenize other with
    | error e' =>
      rw [htext, hother] at h
      cases h
      rfl
    | ok ts' =>
      rw [htext, hother] at h
      cases h
  | ok ts =>
    cases hother : tokenize other with
    | error e' =>
      rw [htext, hother] at h
      cases h
    | ok ts' =>
      rw [htext, hother] at h
      have hlisting : listing ts = listing ts' := Except.ok.inj h
      have hread := ofListing?_listing fun token hmem => (placed_of_tokenize htext token hmem).lexable
      rw [hlisting,
        ofListing?_listing fun token hmem => (placed_of_tokenize hother token hmem).lexable] at hread
      rw [Option.some.inj hread]

/-- The listing of a text tells its tokens, one on a line, with all their places and numbers. It is
empty just if there are none, and texts are listed alike just if they have the same tokens. -/
theorem render_tokens_lossless (limits limits' : Limits) (table table' : Except TableError Table)
    (text other : String) :
    (∀ ts, tokenize text = .ok ts → ∃ shown, render limits .tokens table text = .ok shown ∧
      (shown = "" ↔ ts = []) ∧
      (ts ≠ [] → (Text.cutAt '\n' shown.toList).length = ts.length ∧
        (∀ line ∈ Text.cutAt '\n' shown.toList, line.count '\t' = 2) ∧
        (Text.cutAt '\n' shown.toList).mapM Token.ofListed? = some ts)) ∧
    (render limits .tokens table text = render limits' .tokens table' other ↔
      tokenize text = tokenize other) := by
  refine ⟨fun ts h => ?_, render_tokens_eq_iff⟩
  have hts : ∀ token ∈ ts, token.kind.Lexable :=
    fun token hmem => (placed_of_tokenize h token hmem).lexable
  refine ⟨listing ts, render_tokens_of_tokenize h, listing_eq_empty_iff hts, fun hne => ?_⟩
  refine ⟨?_, fun line hline => ?_, mapM_cutAt_listing hts hne⟩
  · rw [cutAt_listing hts hne, List.length_map]
  · rw [cutAt_listing hts hne] at hline
    obtain ⟨token, htoken, rfl⟩ := List.mem_map.mp hline
    exact Token.count_tab_listed (hts token htoken)

private theorem tokenize_tab :
    tokenize "x\t)" = .ok [⟨.identifier "x", ⟨1, 1⟩⟩, ⟨.symbol ')', ⟨1, 3⟩⟩] := by cbv

private theorem tokenize_blank :
    tokenize "x )" = .ok [⟨.identifier "x", ⟨1, 1⟩⟩, ⟨.symbol ')', ⟨1, 3⟩⟩] := by cbv

private theorem tokenize_closed :
    tokenize "x)" = .ok [⟨.identifier "x", ⟨1, 1⟩⟩, ⟨.symbol ')', ⟨1, 2⟩⟩] := by cbv

/-- A tab in a text is not in its listing, but the place behind it is. -/
theorem render_tokens_lossless_tab : ∃ shown,
    tokenize "x\t)" = .ok [⟨.identifier "x", ⟨1, 1⟩⟩, ⟨.symbol ')', ⟨1, 3⟩⟩] ∧
      render ⟨2, 2, 2⟩ .tokens (.ok .standard) "x\t)" = .ok shown ∧
      (Text.cutAt '\n' shown.toList).length = 2 ∧
      render ⟨2, 2, 2⟩ .tokens (.ok .standard) "x\t)" =
        render ⟨2, 2, 2⟩ .tokens (.error (.incompleteEntry "x")) "x )" ∧
      render ⟨2, 2, 2⟩ .tokens (.ok .standard) "x\t)" ≠
        render ⟨2, 2, 2⟩ .tokens (.ok .standard) "x)" := by
  obtain ⟨hlines, hsame⟩ :=
    render_tokens_lossless ⟨2, 2, 2⟩ ⟨2, 2, 2⟩ (.ok .standard) (.error (.incompleteEntry "x"))
      "x\t)" "x )"
  obtain ⟨_, hother⟩ :=
    render_tokens_lossless ⟨2, 2, 2⟩ ⟨2, 2, 2⟩ (.ok .standard) (.ok .standard) "x\t)" "x)"
  obtain ⟨shown, hshown, _, hcut⟩ := hlines _ tokenize_tab
  refine ⟨shown, tokenize_tab, hshown, (hcut (by simp)).1,
    hsame.mpr (tokenize_tab.trans tokenize_blank.symm), ?_⟩
  rw [ne_eq, hother, tokenize_tab, tokenize_closed]
  decide

end ExprLang
