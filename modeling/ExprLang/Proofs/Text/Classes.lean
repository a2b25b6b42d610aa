import ExprLang.Precedence.Table
import ExprLang.Proofs.Lexing.Lexable

/-! Classes of characters that have no character in common, and what they make of a character that
stands alone. -/
namespace ExprLang.Text

private theorem exists_of_covers {ranges : List (Nat × Nat)} {n : Nat}
    (h : covers ranges n = true) :
    ∃ range ∈ ranges, range.1 ≤ n ∧ n ≤ range.2 := by
  induction ranges with
  | nil => cases h
  | cons range rest ih =>
    obtain ⟨low, high⟩ := range
    rw [covers] at h
    split at h
    · cases h
    · rename_i hlow
      rcases Bool.or_eq_true_iff.mp h with hhigh | hrest
      · exact ⟨(low, high), by simp, Nat.not_lt.mp hlow, of_decide_eq_true hhigh⟩
      · obtain ⟨range, hmem, hn⟩ := ih hrest
        exact ⟨range, by simp [hmem], hn⟩

private def apart (ranges others : List (Nat × Nat)) : Bool :=
  ranges.all fun range => others.all fun other => range.2 < other.1 || other.2 < range.1

private theorem covers_eq_false_of_apart {ranges others : List (Nat × Nat)} {n : Nat}
    (h : apart ranges others = true) (hn : covers ranges n = true) : covers others n = false := by
  rw [Bool.eq_false_iff]
  intro hn'
  obtain ⟨range, hrange, hlow, hhigh⟩ := exists_of_covers hn
  obtain ⟨other, hother, hlow', hhigh'⟩ := exists_of_covers hn'
  have hapart := List.all_eq_true.mp (List.all_eq_true.mp h range hrange) other hother
  simp only [Bool.or_eq_true, decide_eq_true_eq] at hapart
  omega

theorem isBlank_of_isLetter {c : Char} (h : isLetter c = true) : isBlank c = false := by
  have hapart : apart letterRanges blankRanges = true := by decide +kernel
  exact covers_eq_false_of_apart hapart h

theorem isWordPart_of_isBlank {c : Char} (h : isBlank c = true) : isWordPart c = false := by
  have hletters : apart blankRanges letterRanges = true := by decide +kernel
  have hnumerics : apart blankRanges numericRanges = true := by decide +kernel
  rw [isWordPart, isLetter, isNumeric, covers_eq_false_of_apart hletters h,
    covers_eq_false_of_apart hnumerics h]
  rfl

/-- Letters begin above all digits and marks of the first half of the ASCII range. -/
theorem isLetter_of_lt {c : Char} (h : c.toNat < 65) : isLetter c = false := by
  rw [isLetter, letterRanges, covers, if_pos h]

theorem isAsciiDigit_iff {c : Char} : isAsciiDigit c = true ↔ 48 ≤ c.toNat ∧ c.toNat ≤ 57 := by
  rw [isAsciiDigit, Bool.and_eq_true, decide_eq_true_iff, decide_eq_true_iff, Char.le_def,
    Char.le_def, UInt32.le_iff_toNat_le, UInt32.le_iff_toNat_le]
  rfl

private theorem isWordPart_of_isAsciiDigit {c : Char} (h : isAsciiDigit c = true) :
    isWordPart c = true := by
  obtain ⟨hlow, hhigh⟩ := isAsciiDigit_iff.mp h
  rw [isWordPart, isNumeric, numericRanges, covers, if_neg (Nat.not_lt.mpr hlow)]
  simp [hhigh]

/-- A digit or point is no letter, and no white space or comment either. -/
theorem of_isNumberPart {c : Char} (h : isNumberPart c = true) :
    isLetter c = false ∧ isBlank c = false ∧ c ≠ '#' := by
  have hrange : c.toNat = 46 ∨ 48 ≤ c.toNat ∧ c.toNat ≤ 57 := by
    rcases Bool.or_eq_true_iff.mp h with h | h
    · exact .inr (isAsciiDigit_iff.mp h)
    · exact .inl (congrArg Char.toNat (eq_of_beq h))
  refine ⟨isLetter_of_lt (by omega), ?_, ?_⟩
  · rw [isBlank, Bool.eq_false_iff]
    intro hblank
    obtain ⟨range, hmem, hlow, hhigh⟩ := exists_of_covers hblank
    simp only [blankRanges, List.mem_cons, List.not_mem_nil, or_false] at hmem
    rcases hmem with rfl | rfl | rfl | rfl | rfl | rfl | rfl | rfl | rfl | rfl <;> omega
  · rintro rfl
    simp at hrange

theorem isAlone_iff {c : Char} : isAlone c = true ↔
    isLetter c = false ∧ isNumberPart c = false ∧ isBlank c = false ∧ c ≠ '#' := by
  simp [isAlone, and_assoc]

/-- Of the characters that are a token of their own, brackets, commas and semicolons are no
operators. -/
theorem isOperatorChar_iff {c : Char} : isOperatorChar c = true ↔
    c ∉ ['(', ')', ',', ';'] ∧ isAlone c = true ∧ isWordPart c = false := by
  rw [isAlone_iff]
  constructor
  · intro h
    simp only [isOperatorChar, reservedChars, Bool.and_eq_true, Bool.not_eq_true'] at h
    obtain ⟨⟨hword, hblank⟩, hreserved⟩ := h
    have hletter : isLetter c = false := by
      simp_all [isWordPart]
    have hdigit : isAsciiDigit c = false :=
      Bool.eq_false_iff.mpr fun hdigit => by simp [isWordPart_of_isAsciiDigit hdigit] at hword
    simp_all [isNumberPart]
  · rintro ⟨hmarks, ⟨hletter, hnumber, hblank, hcomment⟩, hword⟩
    have hpoint : c ≠ '.' := by
      rintro rfl
      simp [isNumberPart] at hnumber
    simp_all [isOperatorChar, reservedChars]

end ExprLang.Text
