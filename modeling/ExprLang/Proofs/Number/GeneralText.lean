import ExprLang.Proofs.Number.Range
import ExprLang.Proofs.Number.ReadBack
import ExprLang.Proofs.Text.Integer

/-! The general text of a number reads back as the same number, with a power of ten or without. -/
namespace ExprLang
namespace Double

private theorem exists_powerText {power : Int} (hpower : power.natAbs < 1000) :
    ∃ rest, powerText power = 'e' :: rest ∧ Text.integer? rest = some power := by
  have hpos := Decimal.length_digitChars_pos power.natAbs
  have hlength : (Decimal.digitChars power.natAbs).length ≤ 3 :=
    (Nat.length_toDigits_le_iff (by decide) (by decide)).mpr hpower
  have hdigits : ∀ c ∈ List.replicate (2 - (Decimal.digitChars power.natAbs).length) '0' ++
      Decimal.digitChars power.natAbs, Text.isAsciiDigit c = true := fun c hc =>
    (List.mem_append.mp hc).elim isAsciiDigit_of_mem_zeros isAsciiDigit_of_mem_digitChars
  have hread := Text.integer?_signed (decide (power < 0)) (by
    intro hnil
    rw [(List.append_eq_nil_iff.mp hnil).2] at hpos
    exact absurd hpos (by decide)) hdigits (by
    rw [List.length_append, List.length_replicate, Text.integerDigitLimit]
    omega)
  refine ⟨_, rfl, ?_⟩
  simp only [decide_eq_true_eq, Nat.ofDigitChars_append, Nat.ofDigitChars_replicate_zero,
    Nat.mul_zero, ofDigitChars_digitChars] at hread
  rw [hread]
  congr 1
  split <;> omega

variable {parts : List Char × List Char}

private theorem pointed_ne_power (h : ∀ c ∈ parts.1 ++ parts.2, Text.isAsciiDigit c = true) :
    ∀ c ∈ pointed parts, (c != 'e') = true := by
  refine forall_pointed (by decide) fun c hc => ?_
  rw [bne_iff_ne]
  rintro rfl
  exact absurd (h _ hc) (by decide)

end Double

namespace Decimal
variable {parts : List Char × List Char}

private theorem ofScientific?_pointed (h : ∀ c ∈ parts.1 ++ parts.2, Text.isAsciiDigit c = true) :
    ofScientific? (Double.pointed parts) = ofPositional? (Double.pointed parts) := by
  have hne := Double.pointed_ne_power h
  have htake : (Double.pointed parts ++ []).takeWhile (· != 'e') = _ :=
    List.takeWhile_append_of_pos hne
  have hdrop : (Double.pointed parts ++ []).dropWhile (· != 'e') = _ :=
    List.dropWhile_append_of_pos hne
  rw [List.append_nil] at htake hdrop
  rw [ofScientific?, htake, hdrop]
  simp

private theorem ofScientific?_powerText (h : ∀ c ∈ parts.1 ++ parts.2, Text.isAsciiDigit c = true)
    {power : Int} (hpower : power.natAbs < 1000) :
    ofScientific? (Double.pointed parts ++ Double.powerText power) =
      (ofPositional? (Double.pointed parts)).map fun d => ⟨d.digits, d.exponent + power⟩ := by
  have hne := Double.pointed_ne_power h
  obtain ⟨rest, hrest, hread⟩ := Double.exists_powerText hpower
  rw [ofScientific?, hrest, List.takeWhile_append_of_pos hne, List.dropWhile_append_of_pos hne]
  cases hmantissa : ofPositional? (Double.pointed parts) <;> simp [hmantissa, hread]

end Decimal

namespace Double

/-- A text is read as a decimal fraction that reads as the given magnitude. -/
def ReadsBack (cs : List Char) (index : Nat) : Prop :=
  ∃ d, Decimal.ofScientific? cs = some d ∧ readsAs d index = true

private theorem readsBack_positional {whole fraction : List Char} (hwhole : whole ≠ [])
    (hdigits : ∀ c ∈ whole ++ fraction, Text.isAsciiDigit c = true) {index : Nat}
    (h : readsAs ⟨Nat.ofDigitChars 10 (whole ++ fraction) 0, -(fraction.length : Int)⟩ index = true) :
    ReadsBack (whole ++ '.' :: (if fraction.isEmpty then ['0'] else fraction)) index := by
  have hread {fraction : List Char} (hdigits : ∀ c ∈ whole ++ fraction, Text.isAsciiDigit c = true) :
      Decimal.ofScientific? (pointed (whole, fraction)) = some _ :=
    (Decimal.ofScientific?_pointed hdigits).trans (ofPositional?_pointed hwhole hdigits)
  cases fraction with
  | nil =>
    refine ⟨_, @hread ['0'] fun c hc => ?_, ?_⟩
    · rcases List.mem_append.mp hc with hc | hc
      · exact hdigits c (List.mem_append_left _ hc)
      · exact isAsciiDigit_of_mem_zeros (n := 1) hc
    · have hzero : Nat.ofDigitChars 10 (whole ++ ['0']) 0 =
          Nat.ofDigitChars 10 whole 0 * Nat.pow 10 1 := by
        rw [Nat.ofDigitChars_append, Nat.mul_comm]
        rfl
      simp only [hzero]
      rw [readsAs_scale]
      simpa using h
  | cons c rest => exact ⟨_, hread hdigits, h⟩

theorem scientific_eq (digits : List Char) (point : Int) : scientific digits point =
    pointed (digits.take 1, digits.drop 1) ++ powerText (point - 1) := by
  rcases digits with _ | ⟨first, _ | ⟨second, rest⟩⟩ <;> rfl

private theorem readsBack_scientific {digits : List Char} (hne : digits ≠ [])
    (hdigits : ∀ c ∈ digits, Text.isAsciiDigit c = true) {point : Int}
    (hpoint : (point - 1).natAbs < 1000) {index : Nat}
    (h : readsAs ⟨Nat.ofDigitChars 10 digits 0, point - digits.length⟩ index = true) :
    ReadsBack (scientific digits point) index := by
  obtain ⟨first, rest, rfl⟩ := List.exists_cons_of_ne_nil hne
  have hread := @Decimal.ofScientific?_powerText ([first], rest) hdigits _ hpoint
  rw [@ofPositional?_pointed ([first], rest) (by simp) hdigits] at hread
  have hexp : -(rest.length : Int) + (point - 1) = point - (first :: rest).length := by
    rw [List.length_cons]
    omega
  rw [scientific_eq]
  refine ⟨_, hread, ?_⟩
  simp only [hexp]
  exact h

/-- A decimal fraction in general form. -/
def decimalText (d : Decimal) : List Char :=
  let (digits, point) := significant d
  if -4 < point && point ≤ 16 then
    let (whole, fraction) := positional digits point
    whole ++ '.' :: (if fraction.isEmpty then ['0'] else fraction)
  else scientific digits point

theorem magnitudeText_eq {index : Nat} (h : index ≠ 0) :
    magnitudeText index = decimalText (shortest index) := by
  rw [magnitudeText, if_neg h]
  rfl

/-- The text of a decimal fraction that reads as a magnitude above zero reads back. -/
theorem readsBack_decimalText {d : Decimal} {index : Nat} (hlast : index < magnitudeCount)
    (hpos : 0 < index) (h : readsAs d index = true) : ReadsBack (decimalText d) index := by
  have hdigits := significant_digits d
  have hvalue := (readsAs_significant d index).trans h
  have hsize : -330 ≤ (significant d).2 ∧ (significant d).2 ≤ 310 :=
    Decimal.size_of_readsAs hlast hpos h
  rw [decimalText]
  generalize significant d = found at hdigits hvalue hsize
  obtain ⟨digits, point⟩ := found
  dsimp only at hdigits hvalue hsize ⊢
  split
  · obtain ⟨hwhole, hparts⟩ := positional_digits point hdigits
    have hvalue := (readsAs_positional digits point index).trans hvalue
    generalize positional digits point = parts at hwhole hparts hvalue
    exact readsBack_positional hwhole hparts hvalue
  · refine readsBack_scientific (fun hnil => ?_) hdigits (by omega) hvalue
    refine Decimal.digits_ne_zero_of_readsAs hpos hvalue ?_
    rw [hnil]
    rfl

private theorem readsBack_magnitudeText (index : Fin magnitudeCount) :
    ReadsBack (magnitudeText index) index := by
  by_cases hindex : index.val = 0
  · rw [magnitudeText, if_pos hindex, hindex]
    exact ⟨⟨0, -1⟩, by decide +kernel, by decide +kernel⟩
  · rw [magnitudeText_eq hindex]
    exact readsBack_decimalText index.isLt (Nat.pos_of_ne_zero hindex) (shortest_readsAs index)

private theorem ofScientific?_minus (rest : List Char) :
    Decimal.ofScientific? ('-' :: rest) = none := by
  have hminus : Text.isAsciiDigit '-' = false := by decide
  simp [Decimal.ofScientific?, Decimal.ofPositional?, hminus]

private theorem ofText?_of_readsBack (negative : Bool) {cs : List Char} {index : Fin magnitudeCount}
    (h : ReadsBack cs index) : ofText? (signText negative ++ cs) = some (.finite negative index) := by
  obtain ⟨d, hread, hreads⟩ := h
  have hinf : cs ≠ ['i', 'n', 'f'] := by
    rintro rfl
    cases hread
  have hnan : cs ≠ ['n', 'a', 'n'] := by
    rintro rfl
    cases hread
  have hminus (rest : List Char) : cs ≠ '-' :: rest := by
    rintro rfl
    rw [ofScientific?_minus] at hread
    cases hread
  have hnumber := Decimal.toDoubleAnyExponent_of_readsAs negative hreads
  cases negative with
  | false =>
    rw [signText, if_neg Bool.false_ne_true, List.nil_append, ofText?]
    case x => exact hminus
    simp [hinf, hnan, hread, hnumber]
  | true => simp [ofText?, signText, hinf, hnan, hread, hnumber]

/-- The general text of a number is read as the same number. -/
theorem ofText?_text (x : Double) : ofText? x.text.toList = some x := by
  cases x with
  | nan => rfl
  | infinite negative => cases negative <;> rfl
  | finite negative index =>
    rw [text, String.toList_ofList]
    exact ofText?_of_readsBack negative (readsBack_magnitudeText index)

end Double
end ExprLang
