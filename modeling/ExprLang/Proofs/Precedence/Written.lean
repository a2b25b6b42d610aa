import ExprLang.Proofs.Number.Range
import ExprLang.Proofs.Number.ReadBack
import ExprLang.Proofs.Precedence.Specs
import ExprLang.Proofs.Text.Integer

/-! A table that is written as a specification is read as the same table, and what is read passes
the check unchanged. -/
namespace ExprLang

/-- An entry as text, with white space around it and in front of its number. -/
def entryText (before blanks after : String) (entry : Char × Int) : String :=
  before ++ (String.singleton entry.1 ++ "=" ++ blanks ++ toString entry.2) ++ after

private def entryChars (blanks : String) (entry : Char × Int) : List Char :=
  entry.1 :: '=' :: (blanks.toList ++ (toString entry.2).toList)

private theorem toList_entryText (before blanks after : String) (entry : Char × Int) :
    (entryText before blanks after entry).toList =
      before.toList ++ (entryChars blanks entry ++ after.toList) := by
  simp [entryText, entryChars]

/-- Pieces that write entries in order. Pieces of nothing but white space may stand between them. -/
inductive Writes : List (Char × Int) → List String → Prop
  | nil : Writes [] []
  | gap {entries : List (Char × Int)} {pieces : List String} {blanks : String}
    (hblanks : ∀ c ∈ blanks.toList, Text.isBlank c = true) (h : Writes entries pieces) :
    Writes entries (blanks :: pieces)
  | entry {entries : List (Char × Int)} {pieces : List String} (before blanks after : String)
    (entry : Char × Int) (hbefore : ∀ c ∈ before.toList, Text.isBlank c = true)
    (hblanks : ∀ c ∈ blanks.toList, Text.isNumberBlank c = true)
    (hafter : ∀ c ∈ after.toList, Text.isBlank c = true) (h : Writes entries pieces) :
    Writes (entry :: entries) (entryText before blanks after entry :: pieces)

private theorem writes_plain (entries : List (Char × Int)) :
    Writes entries (entries.map (entryText "" "" "")) := by
  induction entries with
  | nil => exact .nil
  | cons entry rest ih => exact .entry "" "" "" entry (by simp) (by simp) (by simp) ih

private theorem toString_positive {n : Int} (hn : 0 < n) : (toString n).toList ≠ [] ∧
    (∀ c ∈ (toString n).toList, Text.isAsciiDigit c = true) ∧
    (Nat.ofDigitChars 10 (toString n).toList 0 : Int) = n := by
  obtain ⟨m, rfl⟩ := Int.eq_ofNat_of_zero_le (Int.le_of_lt hn)
  have htext : (toString (m : Int)).toList = Decimal.digitChars m := Decimal.toList_toString m
  rw [htext, Double.ofDigitChars_digitChars]
  exact ⟨List.ne_nil_of_length_pos (Decimal.length_digitChars_pos m),
    fun c => Double.isAsciiDigit_of_mem_digitChars, rfl⟩

namespace Entries

private theorem put_ofTable {entries : List (Char × Int)} {c : Char} (h : c ∉ entries.map Prod.fst)
    (n : Int) : (ofTable ⟨entries⟩).put (.text (String.singleton c)) (.integer n) =
      ofTable ⟨entries ++ [(c, n)]⟩ := by
  have hnew : ¬ (ofTable ⟨entries⟩).pairs.any (·.1.same (.text (String.singleton c))) = true := by
    intro hany
    obtain ⟨pair, hpair, hsame⟩ := List.any_eq_true.mp hany
    obtain ⟨entry, hentry, rfl⟩ := List.mem_map.mp hpair
    have hc : entry.1 = c := by simpa [Value.same_text, String.ext_iff] using hsame
    exact h (List.mem_map.mpr ⟨entry, hentry, hc⟩)
  rw [put, if_neg hnew]
  simp [ofTable]

private theorem Distinct.putEntry {base entries : Entries} (h : base.Distinct) {entry : List Char}
    (hput : base.putEntry entry = .ok entries) : entries.Distinct := by
  rw [Entries.putEntry] at hput
  split at hput
  · cases hput
    exact h
  · split at hput
    · cases hput
    · cases hput
    · split at hput
      · cases hput
      · cases hput
        exact h.put _ _

private theorem Distinct.putEntries {base entries : Entries} (h : base.Distinct)
    {written : List (List Char)}
    (hput : base.putEntries written = .ok entries) : entries.Distinct := by
  induction written generalizing base with
  | nil =>
    cases hput
    exact h
  | cons entry rest ih =>
    rw [Entries.putEntries] at hput
    cases hentry : base.putEntry entry with
    | error e =>
      rw [hentry] at hput
      cases hput
    | ok after =>
      rw [hentry] at hput
      exact ih (h.putEntry hentry) hput

section

variable {entry : Char × Int} {before blanks after : String} (hpositive : 0 < entry.2)

include hpositive

private theorem putEntry_entryChars (hblanks : ∀ c ∈ blanks.toList, Text.isNumberBlank c = true)
    (hlength : (toString entry.2).length ≤ Text.integerDigitLimit) (entries : Entries) :
    entries.putEntry (entryChars blanks entry) =
      .ok (entries.put (.text (String.singleton entry.1)) (.integer entry.2)) := by
  obtain ⟨hne, hdigits, hvalue⟩ := toString_positive hpositive
  have hmark : '=' ∉ blanks.toList ++ (toString entry.2).toList := by
    rw [List.mem_append, not_or]
    exact ⟨fun hmem => absurd (hblanks _ hmem) (by decide),
      fun hmem => absurd (hdigits _ hmem) (by decide)⟩
  have hcut : Text.cutAtLast? '=' (entryChars blanks entry) =
      some ([entry.1], blanks.toList ++ (toString entry.2).toList) :=
    Text.cutAtLast?_append_mark [entry.1] hmark
  have hnumber : Text.integer? (blanks.toList ++ (toString entry.2).toList) = some entry.2 := by
    rw [Text.integer?_digits hblanks hne hdigits hlength, hvalue]
  rw [putEntry, if_neg (by simp [entryChars]), hcut]
  simp only [hnumber]
  rfl

variable (hoperator : isOperatorChar entry.1 = true)

include hoperator

private theorem comma_not_mem_entryChars
    (hblanks : ∀ c ∈ blanks.toList, Text.isNumberBlank c = true) :
    ',' ∉ entryChars blanks entry := by
  obtain ⟨_, hdigits, _⟩ := toString_positive hpositive
  simp only [entryChars, List.mem_cons, List.mem_append, not_or]
  refine ⟨fun h => ?_, by decide, fun h => absurd (hblanks _ h) (by decide),
    fun h => absurd (hdigits _ h) (by decide)⟩
  rw [← h] at hoperator
  simp [isOperatorChar, reservedChars] at hoperator

private theorem trim_entryChars (hbefore : ∀ c ∈ before.toList, Text.isBlank c = true)
    (hafter : ∀ c ∈ after.toList, Text.isBlank c = true) :
    Text.trim Text.isBlank (before.toList ++ (entryChars blanks entry ++ after.toList)) =
      entryChars blanks entry := by
  obtain ⟨hne, hdigits, _⟩ := toString_positive hpositive
  refine Text.trim_between hbefore hafter ?first ?last
  case first =>
    rintro c ⟨⟩
    exact (Text.isAlone_iff.mp (Text.isOperatorChar_iff.mp hoperator).2.1).2.2.1
  case last =>
    intro c hc
    rw [entryChars, ← List.cons_append, ← List.cons_append, List.getLast?_append,
      List.getLast?_eq_some_getLast hne, Option.some_or] at hc
    cases hc
    exact Text.isBlank_of_isAsciiDigit (hdigits _ (List.getLast_mem hne))

private theorem specEntries_entryText (hbefore : ∀ c ∈ before.toList, Text.isBlank c = true)
    (hblanks : ∀ c ∈ blanks.toList, Text.isNumberBlank c = true)
    (hafter : ∀ c ∈ after.toList, Text.isBlank c = true) :
    specEntries [entryText before blanks after entry] = [entryChars blanks entry] := by
  have hmark : ',' ∉ (entryText before blanks after entry).toList := by
    rw [toList_entryText, List.mem_append, List.mem_append, not_or, not_or]
    exact ⟨fun h => absurd (hbefore _ h) (by decide),
      comma_not_mem_entryChars hpositive hoperator hblanks,
      fun h => absurd (hafter _ h) (by decide)⟩
  rw [specEntries, List.flatMap_singleton, Text.cutAt_of_not_mem hmark, List.map_singleton,
    toList_entryText, trim_entryChars hpositive hoperator hbefore hafter]

end

private theorem specEntries_blank {blanks : String}
    (h : ∀ c ∈ blanks.toList, Text.isBlank c = true) :
    specEntries [blanks] = [[]] := by
  have hmark : ',' ∉ blanks.toList := fun hmem => absurd (h _ hmem) (by decide)
  have htrim : Text.trim Text.isBlank ([] ++ ([] ++ blanks.toList)) = [] :=
    Text.trim_between (by simp) h (by simp) (by simp)
  simp only [List.nil_append] at htrim
  simp [specEntries, Text.cutAt_of_not_mem hmark, htrim]

/-- Written entries are put behind those that are there. -/
theorem putEntries_written {entries : List (Char × Int)} {pieces : List String}
    (h : Writes entries pieces) {done : List (Char × Int)}
    (hdistinct : ((done ++ entries).map Prod.fst).Nodup)
    (hentries : ∀ entry ∈ entries, isOperatorChar entry.1 = true ∧ 0 < entry.2 ∧
      (toString entry.2).length ≤ Text.integerDigitLimit) :
    (ofTable ⟨done⟩).putEntries (specEntries pieces) = .ok (ofTable ⟨done ++ entries⟩) := by
  induction h generalizing done with
  | nil => simp [specEntries, putEntries]
  | gap hblanks _ ih =>
    rw [← List.singleton_append, specEntries_append, specEntries_blank hblanks,
      List.singleton_append, putEntries_nil_cons]
    exact ih hdistinct hentries
  | @entry entries pieces before blanks after entry hbefore hblanks hafter _ ih =>
    obtain ⟨⟨hoperator, hpositive, hlength⟩, hrest⟩ := List.forall_mem_cons.mp hentries
    have hnew : entry.1 ∉ done.map Prod.fst := by
      rw [List.map_append, List.nodup_append] at hdistinct
      exact fun hmem => hdistinct.2.2 entry.1 hmem entry.1 (by simp) rfl
    have happend : done ++ entry :: entries = done ++ [entry] ++ entries := by simp
    rw [← List.singleton_append, specEntries_append,
      specEntries_entryText hpositive hoperator hbefore hblanks hafter, List.singleton_append,
      putEntries, putEntry_entryChars hpositive hblanks hlength, put_ofTable hnew, happend]
    rw [happend] at hdistinct
    exact ih hdistinct hrest

end Entries

/-- A table that passes the check unchanged is read from each text that writes it down, over an
empty base, and each table can be written down. Each table that is read, from whatever text over
whatever base, passes the check unchanged. -/
theorem table_written_and_read :
    (∀ t : Table, (Entries.ofTable t).Distinct → (Entries.ofTable t).check = .ok t →
      (∀ entry ∈ t.entries, (toString entry.2).length ≤ Text.integerDigitLimit) →
        ∀ pieces, Writes t.entries pieces →
          Table.ofSpecs [Text.joined "," pieces] ⟨[]⟩ = .ok t) ∧
    (∀ t : Table, Writes t.entries (t.entries.map (entryText "" "" ""))) ∧
    ∀ (specs : List String) (base : Entries) (t : Table), Table.ofSpecs specs base = .ok t →
      (Entries.ofTable t).check = .ok t ∧ (base.Distinct → (Entries.ofTable t).Distinct) := by
  refine ⟨fun t hdistinct hcheck hlength pieces hpieces => ?_, fun t => writes_plain t.entries,
    fun specs base t h => ?_⟩
  · have hlegal := hdistinct.legal hcheck
    have hput : (Entries.ofTable ⟨[]⟩).putEntries (Entries.specEntries pieces) =
        .ok (Entries.ofTable ⟨[] ++ t.entries⟩) :=
      Entries.putEntries_written hpieces hlegal.distinct fun entry he =>
        ⟨hlegal.operator entry he, hlegal.positive entry he, hlength entry he⟩
    rw [Table.ofSpecs_joined]
    exact Table.ofSpecs_eq_ok_iff.mpr ⟨hput, hcheck⟩
  · obtain ⟨hput, hcheck⟩ := Table.ofSpecs_eq_ok_iff.mp h
    exact ⟨hcheck, fun hbase => hbase.putEntries hput⟩

/-- The operator `=`, an empty entry and white space of two kinds. -/
theorem table_written_and_read_equals :
    Writes [('=', 5), ('+', 20)] [" ==\t5 ", "", "+=20\u3000\n"] ∧
      Table.ofSpecs [Text.joined "," [" ==\t5 ", "", "+=20\u3000\n"]] ⟨[]⟩ =
        .ok ⟨[('=', 5), ('+', 20)]⟩ ∧
      Entries.check (.ofTable ⟨[('=', 5), ('+', 20)]⟩) = .ok ⟨[('=', 5), ('+', 20)]⟩ := by
  have hpieces : Writes [('=', 5), ('+', 20)] [" ==\t5 ", "", "+=20\u3000\n"] := by
    have hlast : Writes [('+', 20)] [entryText "" "" "\u3000\n" ('+', 20)] :=
      .entry "" "" "\u3000\n" ('+', 20) (by simp) (by simp) (List.all_eq_true.mp (by decide)) .nil
    exact .entry " " "\t" " " ('=', 5) (List.all_eq_true.mp (by decide))
      (List.all_eq_true.mp (by decide)) (List.all_eq_true.mp (by decide)) (.gap (by simp) hlast)
  have hread : Table.ofSpecs [Text.joined "," [" ==\t5 ", "", "+=20\u3000\n"]] ⟨[]⟩ =
      .ok ⟨[('=', 5), ('+', 20)]⟩ :=
    table_written_and_read.1 ⟨[('=', 5), ('+', 20)]⟩
      (by simp [Entries.Distinct, Entries.ofTable, Value.same_text]) (by rfl) (by decide) _ hpieces
  exact ⟨hpieces, hread, (table_written_and_read.2.2 _ _ _ hread).1⟩

end ExprLang
