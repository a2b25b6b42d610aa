import ExprLang.Proofs.Number.Rounding
import ExprLang.Token.Lexer

/-! The plain text of a number reads back as the same number. -/
namespace ExprLang
namespace Double

private theorem readingNeighbour?_readsAs {index : Nat} {exponent : Int} {d : Decimal}
    (h : readingNeighbour? index exponent = some d) : readsAs d index = true := by
  unfold readingNeighbour? at h
  dsimp only at h
  split at h
  · rename_i hbelow habove
    split at h
    · cases h
      exact hbelow
    · cases h
      exact habove
    · split at h
      · cases h
        exact hbelow
      · cases h
        exact habove
  · rename_i hbelow _
    cases h
    exact hbelow
  · rename_i _ habove
    cases h
    exact habove
  · cases h

private theorem two_pow_pos (k : Nat) : 0 < Nat.pow 2 k := Nat.two_pow_pos k

private theorem five_pow_pos (k : Nat) : 0 < Nat.pow 5 k := Nat.pow_pos (Nat.succ_pos 4)

private theorem ten_pow (k : Nat) : Nat.pow 10 k = Nat.pow 5 k * Nat.pow 2 k := Nat.mul_pow 5 2 k

private theorem reaches_exact {a : Nat} (ha : 0 < a) (index : Nat) :
    reaches (units index * a) (a * unitsInOne) index = true ∧
      reaches (units index * a) (a * unitsInOne) (index + 1) = false := by
  have hden : 0 < a * unitsInOne := by
    unfold unitsInOne
    exact Nat.mul_pos ha (two_pow_pos unitPlaces)
  have hvalue : 2 * (units index * a) * unitsInOne =
      a * unitsInOne * (units index + units index) := by
    rw [← Nat.two_mul, Nat.mul_comm (units index) a, Nat.mul_left_comm 2 a, Nat.mul_right_comm]
  constructor
  · cases index with
    | zero => rfl
    | succ below =>
      rw [reaches_succ_iff, hvalue]
      exact .inl (Nat.mul_lt_mul_of_pos_left (by have := units_lt_succ below; omega) hden)
  · have hlt : a * unitsInOne * (units index + units index) <
        a * unitsInOne * (units index + units (index + 1)) :=
      Nat.mul_lt_mul_of_pos_left (by have := units_lt_succ index; omega) hden
    rw [Bool.eq_false_iff, Ne, reaches_succ_iff, hvalue]
    omega

private theorem exactDecimal_readsAs (index : Nat) : readsAs (exactDecimal index) index = true := by
  have hplaces : 0 < unitPlaces := by decide
  have hexact := reaches_exact (five_pow_pos unitPlaces) index
  unfold unitsInOne at hexact
  rw [readsAs_iff, exactDecimal, Decimal.fraction, if_neg (by simp only; omega), Int.neg_neg,
    Int.toNat_natCast, ten_pow]
  exact hexact

/-- The shortest decimal fraction of a magnitude reads as that magnitude. -/
theorem shortest_readsAs (index : Nat) : readsAs (shortest index) index = true := by
  unfold shortest
  dsimp only
  generalize hfound : (List.range 17).findSome? _ = found
  cases found with
  | none => exact exactDecimal_readsAs index
  | some d =>
    obtain ⟨_, _, hd⟩ := List.exists_of_findSome?_eq_some hfound
    exact readingNeighbour?_readsAs hd

/-- A text is its part without the given character at its end, and such characters. -/
theorem exists_replicate (c : Char) (cs : List Char) : ∃ n,
    cs = (cs.reverse.dropWhile (· == c)).reverse ++ List.replicate n c := by
  have hall : cs.reverse.takeWhile (· == c) =
      List.replicate (cs.reverse.takeWhile (· == c)).length c :=
    List.eq_replicate_iff.mpr
      ⟨rfl, fun d hd => eq_of_beq (List.all_eq_true.mp List.all_takeWhile d hd)⟩
  refine ⟨(cs.reverse.takeWhile (· == c)).length, ?_⟩
  rw [← List.reverse_inj, List.reverse_append, List.reverse_reverse, List.reverse_replicate, ← hall,
    List.takeWhile_append_dropWhile]

theorem positional_of_le {digits : List Char} {point : Int} (h : point ≤ 0) :
    positional digits point = (['0'], List.replicate (-point).toNat '0' ++ digits) := if_pos h

theorem positional_of_lt {digits : List Char} {point : Int} (h : 0 < point) :
    positional digits point = (digits.take point.toNat ++
      List.replicate (point.toNat - digits.length) '0', digits.drop point.toNat) :=
  if_neg (Int.not_le.mpr h)

private theorem positional_value (digits : List Char) (point : Int) : ∃ n : Nat,
    Nat.ofDigitChars 10 ((positional digits point).1 ++ (positional digits point).2) 0 =
      Nat.ofDigitChars 10 digits 0 * Nat.pow 10 n ∧
    (n : Int) - (positional digits point).2.length = point - digits.length := by
  by_cases hpoint : point ≤ 0
  · rw [positional_of_le hpoint]
    refine ⟨0, ?_, ?_⟩
    · rw [← List.append_assoc, Nat.ofDigitChars_append, Nat.ofDigitChars_append]
      simp [Nat.ofDigitChars_cons]
    · rw [List.length_append, List.length_replicate]
      omega
  rw [positional_of_lt (Int.not_le.mp hpoint)]
  by_cases hlen : digits.length ≤ point.toNat
  · refine ⟨point.toNat - digits.length, ?_, ?_⟩
    · rw [List.take_of_length_le hlen, List.drop_of_length_le hlen, List.append_nil,
        Nat.ofDigitChars_append, Nat.ofDigitChars_replicate_zero, Nat.mul_comm, Nat.pow_eq]
    · rw [List.drop_of_length_le hlen, List.length_nil]
      omega
  · refine ⟨0, ?_, ?_⟩
    · rw [Nat.sub_eq_zero_of_le (by omega), List.replicate_zero, List.append_nil,
        List.take_append_drop, Nat.pow_eq, Nat.pow_zero, Nat.mul_one]
    · rw [List.length_drop]
      omega

theorem readsAs_positional (digits : List Char) (point : Int) (index : Nat) :
    readsAs ⟨Nat.ofDigitChars 10 ((positional digits point).1 ++ (positional digits point).2) 0,
      -((positional digits point).2.length : Int)⟩ index =
    readsAs ⟨Nat.ofDigitChars 10 digits 0, point - digits.length⟩ index := by
  obtain ⟨n, hn, hexp⟩ := positional_value digits point
  rw [hn, readsAs_scale, Int.add_comm, ← Int.sub_eq_add_neg, hexp]

theorem isAsciiDigit_of_mem_zeros {n : Nat} {c : Char} (h : c ∈ List.replicate n '0') :
    Text.isAsciiDigit c = true := by
  rw [(List.mem_replicate.mp h).2]
  rfl

theorem positional_digits {digits : List Char} (point : Int)
    (h : ∀ c ∈ digits, Text.isAsciiDigit c = true) :
    (positional digits point).1 ≠ [] ∧
      ∀ c ∈ (positional digits point).1 ++ (positional digits point).2,
        Text.isAsciiDigit c = true := by
  by_cases hpoint : point ≤ 0
  · rw [positional_of_le hpoint]
    refine ⟨by simp, ?_⟩
    simp only [List.cons_append, List.nil_append, List.mem_cons, List.mem_append]
    rintro c (rfl | hc | hc)
    · rfl
    · exact isAsciiDigit_of_mem_zeros hc
    · exact h c hc
  · rw [positional_of_lt (Int.not_le.mp hpoint)]
    refine ⟨fun hnil => ?_, ?_⟩
    · have hlen := congrArg List.length hnil
      rw [List.length_append, List.length_take, List.length_replicate, List.length_nil] at hlen
      omega
    · simp only [List.mem_append]
      rintro c ((hc | hc) | hc)
      · exact h c (List.mem_of_mem_take hc)
      · exact isAsciiDigit_of_mem_zeros hc
      · exact h c (List.mem_of_mem_drop hc)

theorem ofDigitChars_digitChars (n : Nat) : Nat.ofDigitChars 10 (Decimal.digitChars n) 0 = n :=
  Nat.ofDigitChars_ten_toDigits

/-- The digits of a decimal fraction have its value if the point stands where it is counted to. -/
theorem significant_value (d : Decimal) : ∃ n : Nat,
    d.digits = Nat.ofDigitChars 10 (significant d).1 0 * Nat.pow 10 n ∧
    d.exponent + n = (significant d).2 - (significant d).1.length := by
  obtain ⟨n, hn⟩ := exists_replicate '0' (Decimal.digitChars d.digits)
  refine ⟨n, ?_, ?_⟩
  · have hvalue := ofDigitChars_digitChars d.digits
    rw [hn, Nat.ofDigitChars_append, Nat.ofDigitChars_replicate_zero, Nat.mul_comm] at hvalue
    exact hvalue.symm
  · have hlen := congrArg List.length hn
    rw [List.length_append, List.length_replicate] at hlen
    simp only [significant]
    omega

theorem readsAs_significant (d : Decimal) (index : Nat) :
    readsAs ⟨Nat.ofDigitChars 10 (significant d).1 0,
      (significant d).2 - ((significant d).1.length : Int)⟩ index = readsAs d index := by
  obtain ⟨n, hn, hexp⟩ := significant_value d
  obtain ⟨digits, exponent⟩ := d
  rw [← hexp, ← readsAs_scale, ← hn]

theorem isAsciiDigit_of_mem_digitChars {n : Nat} {c : Char} (h : c ∈ Decimal.digitChars n) :
    Text.isAsciiDigit c = true := by
  have hdigit : c.isDigit := Nat.isDigit_of_mem_toDigits (by decide) (by decide) h
  simpa [Char.isDigit, Text.isAsciiDigit, Char.le_def] using hdigit

theorem significant_digits (d : Decimal) :
    ∀ c ∈ (significant d).1, Text.isAsciiDigit c = true := by
  intro c hc
  have hmem : c ∈ (Decimal.digitChars d.digits).reverse :=
    (List.dropWhile_sublist _).subset (List.mem_reverse.mp hc)
  exact isAsciiDigit_of_mem_digitChars (List.mem_reverse.mp hmem)

/-- Two parts with a point between them, unless the second one is empty. -/
def pointed (parts : List Char × List Char) : List Char :=
  if parts.2.isEmpty then parts.1 else parts.1 ++ '.' :: parts.2

/-- What holds of the point and of all digits holds of both parts with the point. -/
theorem forall_pointed {P : Char → Prop} {parts : List Char × List Char} (hpoint : P '.')
    (h : ∀ c ∈ parts.1 ++ parts.2, P c) : ∀ c ∈ pointed parts, P c := by
  obtain ⟨hwhole, hfraction⟩ := List.forall_mem_append.mp h
  rw [pointed]
  split
  · exact hwhole
  · exact List.forall_mem_append.mpr ⟨hwhole, List.forall_mem_cons.mpr ⟨hpoint, hfraction⟩⟩

theorem plainDecimalText_eq (d : Decimal) :
    plainDecimalText d = pointed (positional (significant d).1 (significant d).2) := rfl

end Double

theorem Text.isAsciiDigit_ne_point {c : Char} (h : Text.isAsciiDigit c = true) :
    (c != '.') = true := by
  rw [bne_iff_ne]
  rintro rfl
  exact absurd h (by decide)

/-- Digits are read with the point that stands among them. -/
theorem ofPositional?_pointed {parts : List Char × List Char} (hwhole : parts.1 ≠ [])
    (h : ∀ c ∈ parts.1 ++ parts.2, Text.isAsciiDigit c = true) :
    Decimal.ofPositional? (Double.pointed parts) =
      some ⟨Nat.ofDigitChars 10 (parts.1 ++ parts.2) 0, -(parts.2.length : Int)⟩ := by
  obtain ⟨whole, fraction⟩ := parts
  have hpoint : ∀ c ∈ whole, (c != '.') = true := fun c hc =>
    Text.isAsciiDigit_ne_point (h c (List.mem_append_left _ hc))
  have hall : (whole ++ fraction).all Text.isAsciiDigit = true := List.all_eq_true.mpr h
  have hparts : (Double.pointed (whole, fraction)).takeWhile (· != '.') = whole ∧
      ((Double.pointed (whole, fraction)).dropWhile (· != '.')).drop 1 = fraction := by
    cases fraction with
    | nil =>
      have htake : (whole ++ []).takeWhile (· != '.') = _ := List.takeWhile_append_of_pos hpoint
      have hdrop : (whole ++ []).dropWhile (· != '.') = _ := List.dropWhile_append_of_pos hpoint
      rw [List.append_nil] at htake hdrop
      simp [Double.pointed, htake, hdrop]
    | cons c rest =>
      simp [Double.pointed, List.takeWhile_append_of_pos hpoint,
        List.dropWhile_append_of_pos hpoint]
  simp [Decimal.ofPositional?, hparts.1, hparts.2, hall, show whole ≠ [] from hwhole]

/-- The plain text of a decimal fraction is read with its value. -/
theorem exists_plain (d : Decimal) : ∃ d',
    Decimal.ofPositional? (Double.plainDecimalText d) = some d' ∧
      ∀ index, Double.readsAs d' index = Double.readsAs d index := by
  obtain ⟨hne, hdigits⟩ := Double.positional_digits (Double.significant d).2
    (Double.significant_digits d)
  rw [Double.plainDecimalText_eq]
  exact ⟨_, ofPositional?_pointed hne hdigits, fun index =>
    (Double.readsAs_positional _ _ index).trans (Double.readsAs_significant d index)⟩

private theorem exists_plainMagnitude (index : Nat) : ∃ d,
    Decimal.ofPositional? (Double.plainMagnitudeText index) = some d ∧
      Double.readsAs d index = true := by
  by_cases hindex : index = 0
  · rw [Double.plainMagnitudeText, if_pos hindex, hindex]
    exact ⟨⟨0, 0⟩, rfl, by decide +kernel⟩
  · rw [Double.plainMagnitudeText, if_neg hindex]
    obtain ⟨d, htext, hreads⟩ := exists_plain (Double.shortest index)
    exact ⟨d, htext, (hreads index).trans (Double.shortest_readsAs index)⟩

/-- A plain text is made of digits and a point. -/
theorem Double.plainMagnitudeText_parts (index : Nat) : plainMagnitudeText index ≠ [] ∧
    ∀ c ∈ plainMagnitudeText index, isNumberPart c = true := by
  by_cases hindex : index = 0
  · rw [plainMagnitudeText, if_pos hindex]
    refine ⟨by simp, fun c hc => ?_⟩
    rw [List.mem_singleton.mp hc]
    rfl
  · rw [plainMagnitudeText, if_neg hindex, plainDecimalText_eq]
    obtain ⟨hne, hdigits⟩ := positional_digits (significant (shortest index)).2
      (significant_digits (shortest index))
    refine ⟨?_, forall_pointed rfl fun c hc => by simp [isNumberPart, hdigits c hc]⟩
    rw [pointed]
    split
    · exact hne
    · simp

/-- The plain text of a number without a sign is read as the same number. -/
theorem numberToken_plainMagnitudeText (index : Fin magnitudeCount) (pos : Pos) :
    numberToken (Double.plainMagnitudeText index) pos = .ok ⟨.number (.finite false index), pos⟩ := by
  obtain ⟨d, htext, hreads⟩ := exists_plainMagnitude index
  rw [numberToken, htext, Option.map_some, Double.toDouble_of_readsAs false hreads]
  rfl

end ExprLang
