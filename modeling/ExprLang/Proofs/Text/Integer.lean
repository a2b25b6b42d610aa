import ExprLang.Proofs.Text.Classes
import ExprLang.Proofs.Text.Pieces
import ExprLang.Text.Integer

/-! Whole numbers that are written with plain digits are read with the value of their digits. -/
namespace ExprLang.Text

variable {cs : List Char}

private theorem digitValue?_of_isAsciiDigit {c : Char} (h : isAsciiDigit c = true) :
    digitValue? c = some (c.toNat - 48) := by
  obtain ⟨hlow, hhigh⟩ := isAsciiDigit_iff.mp h
  have hfirst : (decide (48 ≤ c.toNat) && decide (c.toNat < 48 + 10)) = true := by
    rw [Bool.and_eq_true, decide_eq_true_iff, decide_eq_true_iff]
    omega
  rw [digitValue?, digitZeros, List.find?_cons, hfirst]
  rfl

private theorem digitRun?_of_digits (hne : cs ≠ []) (h : ∀ c ∈ cs, isAsciiDigit c = true) :
    digitRun? cs = some (cs.map (·.toNat - 48)) := by
  induction cs with
  | nil => exact absurd rfl hne
  | cons c rest ih =>
    obtain ⟨hc, hrest⟩ := List.forall_mem_cons.mp h
    cases rest with
    | nil => simp [digitRun?, digitValue?_of_isAsciiDigit hc]
    | cons d more =>
      have hd (after : List Char) : d :: more = '_' :: after → False := by
        rintro ⟨⟩
        exact absurd (hrest '_' (by simp)) (by decide)
      rw [digitRun?.eq_4 _ _ (by simp) hd, digitValue?_of_isAsciiDigit hc, ih (by simp) hrest]
      rfl

private theorem natural?_of_digits (hne : cs ≠ []) (h : ∀ c ∈ cs, isAsciiDigit c = true)
    (hlength : cs.length ≤ integerDigitLimit) :
    natural? cs = some (Nat.ofDigitChars 10 cs 0) := by
  have hvalue : ofDigits (cs.map (·.toNat - 48)) = Nat.ofDigitChars 10 cs 0 := List.foldl_map
  rw [natural?, digitRun?_of_digits hne h]
  simp [hlength, hvalue]

theorem isBlank_of_isAsciiDigit {c : Char} (h : isAsciiDigit c = true) : isBlank c = false := by
  have hpart : isNumberPart c = true := by simp [isNumberPart, h]
  exact (of_isNumberPart hpart).2.1

private theorem isNumberBlank_of_isAsciiDigit {c : Char} (h : isAsciiDigit c = true) :
    isNumberBlank c = false := by
  simp [isNumberBlank, isBlank_of_isAsciiDigit h]

/-- A sign and plain digits are read as the value of the digits with that sign. -/
theorem integer?_signed (negative : Bool) (hne : cs ≠ []) (h : ∀ c ∈ cs, isAsciiDigit c = true)
    (hlength : cs.length ≤ integerDigitLimit) :
    integer? ((if negative then '-' else '+') :: cs) =
      some (if negative then -(Nat.ofDigitChars 10 cs 0 : Int) else Nat.ofDigitChars 10 cs 0) := by
  have hblank : ∀ c ∈ (if negative then '-' else '+') :: cs, isNumberBlank c = false := by
    exact List.forall_mem_cons.mpr ⟨by cases negative <;> decide,
      fun c hc => isNumberBlank_of_isAsciiDigit (h c hc)⟩
  rw [integer?, trim_of_not_blank hblank]
  cases negative <;> simp [natural?_of_digits hne h hlength]

/-- Plain digits are read as their value, whatever white space stands in front. -/
theorem integer?_digits {blanks : List Char} (hblanks : ∀ c ∈ blanks, isNumberBlank c = true)
    (hne : cs ≠ []) (h : ∀ c ∈ cs, isAsciiDigit c = true) (hlength : cs.length ≤ integerDigitLimit) :
    integer? (blanks ++ cs) = some (Nat.ofDigitChars 10 cs 0 : Int) := by
  have htrim : trim isNumberBlank (blanks ++ (cs ++ [])) = cs := trim_between hblanks (by simp)
    (fun c hc => isNumberBlank_of_isAsciiDigit (h c (List.mem_of_head? hc)))
    (fun c hc => isNumberBlank_of_isAsciiDigit (h c (List.mem_of_getLast? hc)))
  rw [List.append_nil] at htrim
  rw [integer?, htrim]
  -- A digit is no sign.
  split
  · exact absurd (h '+' (by simp)) (by decide)
  · exact absurd (h '-' (by simp)) (by decide)
  · simp [natural?_of_digits hne h hlength]

end ExprLang.Text
