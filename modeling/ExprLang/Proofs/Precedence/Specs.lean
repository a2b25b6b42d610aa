import ExprLang.Precedence.Spec
import ExprLang.Proofs.Precedence.Check
import ExprLang.Proofs.Text.Pieces

/-! Specifications are put over a table one after the other, and a comma does what the next
specification does. -/
namespace ExprLang

namespace Entries

theorem specEntries_append (first rest : List String) :
    specEntries (first ++ rest) = specEntries first ++ specEntries rest :=
  List.flatMap_append

private theorem putEntries_append (entries : Entries) (first rest : List (List Char)) :
    entries.putEntries (first ++ rest) =
      (entries.putEntries first).bind fun after => after.putEntries rest := by
  induction first generalizing entries with
  | nil => rfl
  | cons entry more ih =>
    rw [List.cons_append, putEntries, putEntries]
    cases entries.putEntry entry with
    | error e => rfl
    | ok after => exact ih after

/-- An empty entry is skipped. -/
theorem putEntries_nil_cons (entries : Entries) (rest : List (List Char)) :
    entries.putEntries ([] :: rest) = entries.putEntries rest := rfl

/-- Joined with commas, specifications have the entries that they have one by one. -/
theorem specEntries_joined {specs : List String} (hne : specs ≠ []) :
    specEntries [Text.joined "," specs] = specEntries specs := by
  have hcut : Text.cutAt ',' (Text.joined "," specs).toList =
      specs.flatMap fun spec => Text.cutAt ',' spec.toList := Text.cutAt_joined (by simp) hne
  rw [specEntries, List.flatMap_singleton, hcut, List.map_flatMap, specEntries]

private theorem putEntries_joined (entries : Entries) (specs : List String) :
    entries.putEntries (specEntries [Text.joined "," specs]) =
      entries.putEntries (specEntries specs) := by
  cases specs with
  | nil => exact putEntries_nil_cons entries []
  | cons spec rest => rw [specEntries_joined (by simp)]

end Entries

namespace Table

theorem ofSpecs_eq_ok_iff {specs : List String} {base : Entries} {t : Table} :
    ofSpecs specs base = .ok t ↔ base.putEntries (Entries.specEntries specs) = .ok (.ofTable t) ∧
      (Entries.ofTable t).check = .ok t := by
  rw [ofSpecs]
  cases base.putEntries (Entries.specEntries specs) with
  | error e =>
    constructor
    · rintro ⟨⟩
    · rintro ⟨⟨⟩, _⟩
  | ok entries =>
    constructor
    · intro h
      obtain ⟨rfl, _⟩ := Entries.check_eq_ok_iff.mp h
      exact ⟨rfl, h⟩
    · rintro ⟨⟨⟩, h⟩
      exact h

/-- If the first specifications lead to a table, the others may be put over that table. -/
theorem ofSpecs_append {first : List String} {base : Entries} {t : Table}
    (h : ofSpecs first base = .ok t) (rest : List String) :
    ofSpecs (first ++ rest) base = ofSpecs rest (.ofTable t) := by
  rw [ofSpecs, ofSpecs, Entries.specEntries_append, Entries.putEntries_append,
    (ofSpecs_eq_ok_iff.mp h).1]
  rfl

theorem ofSpecs_joined (specs : List String) (base : Entries) :
    ofSpecs [Text.joined "," specs] base = ofSpecs specs base := by
  rw [ofSpecs, ofSpecs, Entries.putEntries_joined]

/-- An empty text in the environment asks for no table, and as a specification it changes
nothing. -/
theorem ofEnvironment_getD (spec : String) :
    (ofEnvironment (some spec)).map (·.getD standard) = ofSpecs [spec] .standard := by
  rw [ofEnvironment]
  split
  · rename_i hempty
    rw [String.isEmpty_iff.mp hempty]
    rfl
  · cases ofSpecs [spec] .standard <;> rfl

end Table

end ExprLang
