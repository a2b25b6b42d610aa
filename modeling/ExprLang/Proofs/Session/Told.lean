import ExprLang.Proofs.Lexing.Lines
import ExprLang.Proofs.Session.Report
import ExprLang.Proofs.Writing.Documents

/-! What a session prints of items, wherever these stand, and of an error behind them. An item that
is too deep for its text cuts the report off. -/
namespace ExprLang

section
variable {f : Pos → Pos}

namespace Expr

mutual

private theorem source_moved : (e : Expr) → (e.moved f).source = e.source
  | .number _ _ | .var _ _ => by simp [moved, source]
  | .binary _ left right _ => by simp [moved, source, source_moved left, source_moved right]
  | .call _ args _ => by simp [moved, source, argSources_moved args]

private theorem argSources_moved :
    (args : List Expr) → argSources (movedArgs f args) = argSources args
  | [] => rfl
  | arg :: rest => by simp [movedArgs, argSources, source_moved arg, argSources_moved rest]

end

mutual

private theorem depth_moved : (e : Expr) → (e.moved f).depth = e.depth
  | .number _ _ | .var _ _ => by simp [moved, depth]
  | .binary _ left right _ => by simp [moved, depth, depth_moved left, depth_moved right]
  | .call _ args _ => by simp [moved, depth, argsDepth_moved args]

private theorem argsDepth_moved : (args : List Expr) → argsDepth (movedArgs f args) = argsDepth args
  | [] => rfl
  | arg :: rest => by simp [movedArgs, argsDepth, depth_moved arg, argsDepth_moved rest]

end

end Expr

namespace Item

@[simp] theorem source_moved (item : Item) : (item.moved f).source = item.source := by
  cases item <;> simp [moved, source, Function.source, Prototype.source, Prototype.moved,
    Expr.source_moved]

@[simp] theorem depth_moved (item : Item) : (item.moved f).depth = item.depth := by
  cases item <;> simp [moved, depth, Expr.depth_moved]

@[simp] theorem description_moved (item : Item) :
    (item.moved f).description = item.description := by
  cases item <;> rfl

/-- All that is printed of an item, in a session that echoes it or not. -/
def told (verbose : Bool) (item : Item) : String :=
  item.description ++ "\n" ++ if verbose then "[ast] >>> " ++ item.source ++ "\n" else ""

end Item
end

private theorem Pos.eq_of_inWords_eq {p q : Pos} (h : p.inWords = q.inWords) : p = q := by
  have hwords (p : Pos) : p.inWords.toList =
      ("line ".toList ++ (toString p.line).toList) ++ ',' :: (" col ".toList ++
        (toString p.column).toList) := by
    simp [inWords]
  have hmark (front : List Char) (hfront : ',' ∉ front) (n : Int) :
      ',' ∉ front ++ (toString n).toList := fun hmem =>
    (List.mem_append.mp hmem).elim hfront (Document.not_mem_toString n (by decide))
  have hcut (p : Pos) : Text.cutAt ',' p.inWords.toList =
      ["line ".toList ++ (toString p.line).toList, " col ".toList ++ (toString p.column).toList] := by
    rw [hwords, Text.cutAt_append_mark, Text.cutAt_of_not_mem (hmark _ (by decide) _),
      Text.cutAt_of_not_mem (hmark _ (by decide) _)]
    rfl
  have hvalue {m n : Int} (h : (toString m).toList = (toString n).toList) : m = n := by
    rw [← (Document.toString_integer m).1, h, (Document.toString_integer n).1]
  have hparts := hcut p
  rw [h, hcut, List.cons.injEq, List.cons.injEq, List.append_cancel_left_eq,
    List.append_cancel_left_eq] at hparts
  obtain ⟨pline, pcolumn⟩ := p
  obtain ⟨qline, qcolumn⟩ := q
  obtain rfl := hvalue hparts.1
  obtain rfl := hvalue hparts.2.1
  rfl

namespace SyntaxError

/-- An error is told in the same words elsewhere just if it tells no place, or the same one. -/
theorem message_moved_iff {f : Pos → Pos} {e : SyntaxError} :
    (e.moved f).message = e.message ↔ ∀ p ∈ e.place?, f p = p := by
  cases hplace : e.place? with
  | none =>
    cases e with
    | lexical | unexpected | tooDeep => cases hplace
    | notNumber | incomparable | noSuccessor => simp [moved]
  | some p =>
    rw [message_moved hplace, message_eq hplace]
    simp only [String.append_left_inj, String.append_right_inj]
    refine ⟨fun h => ?_, fun h => by rw [h p rfl]⟩
    rintro _ ⟨⟩
    exact Pos.eq_of_inWords_eq h

end SyntaxError

namespace Report
variable {limit : Nat} {verbose : Bool} {error : Option SyntaxError} {items more : List Item}

def told (verbose : Bool) (items : List Item) :
    String := String.join (items.map (Item.told verbose))

theorem ofText_eq_ofItems (limits : Limits) (t : Table) (verbose : Bool) (text : String) :
    ofText limits (.ok t) verbose text = ofItems limits.source verbose
      (ending t limits.levels text) (collected t limits.levels text) := by
  rw [ofText, ending, collected]
  cases begin? text <;> rfl

theorem ofItems_moved (f : Pos → Pos) (limit : Nat) (verbose : Bool) (error : Option SyntaxError)
    (items : List Item) :
    ofItems limit verbose error (items.map (Item.moved f)) = ofItems limit verbose error items := by
  induction items with
  | nil => rfl
  | cons item rest ih => simp only [List.map_cons, ofItems, Item.source_moved, Item.depth_moved,
      Item.description_moved, ih]

private theorem after_after (front text : String) (r : Report) :
    (r.after text).after front = r.after (front ++ text) := by
  simp [after, String.append_assoc]

/-- Items that are not too deep are told before anything that is printed of what follows. -/
theorem ofItems_append (hflat : verbose = true → renderable limit items = true) :
    ofItems limit verbose error (items ++ more) =
      (ofItems limit verbose error more).after (told verbose items) := by
  induction items with
  | nil => simp [after, told]
  | cons item rest ih =>
    have htold : told verbose (item :: rest) = item.told verbose ++ told verbose rest := by
      simp [told]
    rw [List.cons_append, ofItems, htold]
    cases verbose with
    | false => simp [ih (by simp), Item.told, after_after]
    | true =>
      have hall := hflat rfl
      simp only [renderable, List.all_cons, Bool.and_eq_true] at hall
      rw [ih fun _ => hall.2, if_pos rfl, if_pos (of_decide_eq_true hall.1), after_after, Item.told,
        if_pos rfl]
      simp only [String.append_assoc]

/-- Behind items that are not too deep, the error is told. -/
theorem ofItems_of_flat (hflat : verbose = true → renderable limit items = true)
    (error : Option SyntaxError) :
    ofItems limit verbose error items = (ofItems limit verbose error []).after (told verbose items) := by
  have happend : ofItems limit verbose error (items ++ []) = _ := ofItems_append hflat
  rwa [List.append_nil] at happend

/-- An item that is too deep is not told to its end, and nothing is behind it. -/
theorem length_printed_lt (hdeep : renderable limit items = false) (error : Option SyntaxError)
    (more : List Item) :
    (ofItems limit true error (items ++ more)).printed.length < (told true items).length := by
  induction items with
  | nil => simp [renderable] at hdeep
  | cons item rest ih =>
    have htold : told true (item :: rest) = item.told true ++ told true rest := by simp [told]
    rw [List.cons_append, ofItems, htold]
    by_cases hitem : item.depth ≤ limit
    · have hrest : renderable limit rest = false := by simpa [renderable, hitem] using hdeep
      have := ih hrest
      simp only [if_true, if_pos hitem, after, Item.told, String.length_append]
      omega
    · simp only [if_true, if_neg hitem, Item.told, String.length_append]
      have hecho : 0 < "[ast] >>> ".length := by decide
      omega

private theorem ofItems_of_deep (hdeep : renderable limit items = false)
    (error : Option SyntaxError) :
    ofItems limit true error items = ofItems limit true none items := by
  induction items with
  | nil => simp [renderable] at hdeep
  | cons item rest ih =>
    rw [ofItems, ofItems]
    by_cases hitem : item.depth ≤ limit
    · have hrest : renderable limit rest = false := by simpa [renderable, hitem] using hdeep
      simp only [if_true, if_pos hitem, ih hrest]
    · simp only [if_true, if_neg hitem]

/-- Two errors are told in the same way behind the same items. -/
theorem shown_ofItems_eq_iff (verbose : Bool) (items : List Item) (e e' : SyntaxError) :
    (ofItems limit verbose (some e) items).shown = (ofItems limit verbose (some e') items).shown ↔
      (verbose = true ∧ renderable limit items = false) ∨ e.message = e'.message := by
  by_cases hflat : verbose = true → renderable limit items = true
  · have hshown (e : SyntaxError) :
        (ofItems limit verbose (some e) items).shown = told verbose items ++ errorLine e := by
      rw [ofItems_of_flat hflat]
      rfl
    have hdeep : ¬ (verbose = true ∧ renderable limit items = false) := by
      rintro ⟨hverbose, hdeep⟩
      cases (hflat hverbose).symm.trans hdeep
    rw [hshown, hshown, or_iff_right hdeep, errorLine, errorLine]
    simp only [String.append_left_inj, String.append_right_inj]
  · obtain ⟨rfl, hnot⟩ := Classical.not_imp.mp hflat
    have hdeep := Bool.eq_false_iff.mpr hnot
    rw [ofItems_of_deep hdeep, ofItems_of_deep hdeep (some e')]
    simp [hdeep]

end Report
end ExprLang
