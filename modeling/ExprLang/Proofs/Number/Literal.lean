import ExprLang.Proofs.Lexing.Operation
import ExprLang.Proofs.Number.Nearest
import ExprLang.Proofs.Number.ReadBack

/-! A number is taken from all digits and points that stand together. They are malformed, or have an
exact value; that is past the range of doubles, or the nearest double is answered. -/
namespace ExprLang

namespace Literal

/-- Digits and points that are no number: there is no digit, or more than one point. -/
def Malformed (literal : List Char) : Prop :=
  (∀ c ∈ literal, Text.isAsciiDigit c = false) ∨ 1 < literal.count '.'

/-- The value of a digit. -/
def digitValue (c : Char) : ℚ := (c.toNat - '0'.toNat : Nat)

/-- The value of digits in front of the point. -/
def wholeValue (digits : List Char) : ℚ :=
  digits.foldl (fun value c => 10 * value + digitValue c) 0

/-- The value of digits behind the point. -/
def fractionValue : List Char → ℚ
  | [] => 0
  | c :: rest => (digitValue c + fractionValue rest) / 10

/-- The exact value of digits with a point among them, or without one. -/
def value (literal : List Char) : ℚ :=
  wholeValue (literal.takeWhile (· != '.')) +
    fractionValue ((literal.dropWhile (· != '.')).drop 1)

private theorem wholeValue_eq (digits : List Char) :
    wholeValue digits = Nat.ofDigitChars 10 digits 0 := by
  have hfold (n : Nat) : digits.foldl (fun value c => 10 * value + digitValue c) (n : ℚ) =
      Nat.ofDigitChars 10 digits n := by
    induction digits generalizing n with
    | nil => rfl
    | cons c rest ih =>
      rw [List.foldl_cons, Nat.ofDigitChars_cons, ← ih]
      push_cast
      rfl
  exact_mod_cast hfold 0

private theorem fractionValue_eq (digits : List Char) :
    fractionValue digits = Nat.ofDigitChars 10 digits 0 / 10 ^ digits.length := by
  induction digits with
  | nil => simp [fractionValue]
  | cons c rest ih =>
    have hdigits : Nat.ofDigitChars 10 (c :: rest) 0 =
        10 ^ rest.length * (c.toNat - '0'.toNat) + Nat.ofDigitChars 10 rest 0 := by
      rw [Nat.ofDigitChars_cons, Nat.mul_zero, Nat.zero_add]
      exact Nat.ofDigitChars_eq_ofDigitChars_zero
    rw [fractionValue, ih, hdigits, digitValue, List.length_cons, pow_succ]
    push_cast
    field_simp

private theorem exists_parts (literal : List Char) : ∃ whole fraction,
    literal.takeWhile (· != '.') = whole ∧ (literal.dropWhile (· != '.')).drop 1 = fraction ∧
      '.' ∉ whole ∧ (literal = whole ∧ fraction = [] ∨ literal = whole ++ '.' :: fraction) := by
  have hwhole : '.' ∉ literal.takeWhile (· != '.') := fun hmem => by
    simpa using List.all_eq_true.mp List.all_takeWhile '.' hmem
  have hboth := List.takeWhile_append_dropWhile (p := (· != '.')) (l := literal)
  have hhead := List.head?_dropWhile_not (· != '.') literal
  refine ⟨_, _, rfl, rfl, hwhole, ?_⟩
  cases hrest : literal.dropWhile (· != '.') with
  | nil =>
    rw [hrest, List.append_nil] at hboth
    exact .inl ⟨hboth.symm, rfl⟩
  | cons c fraction =>
    rw [hrest] at hboth hhead
    obtain rfl : c = '.' := by simpa using hhead
    exact .inr hboth.symm

variable {literal : List Char}

private theorem isAsciiDigit_of_ne_point {c : Char} (hc : isNumberPart c = true)
    (hpoint : c ≠ '.') :
    Text.isAsciiDigit c = true := by
  simpa [isNumberPart, hpoint] using hc

private theorem malformed_iff {whole fraction : List Char}
    (hparts : ∀ c ∈ literal, isNumberPart c = true) (hwhole : '.' ∉ whole)
    (hliteral : literal = whole ∧ fraction = [] ∨ literal = whole ++ '.' :: fraction) :
    Malformed literal ↔
      ¬ ((whole ++ fraction).all Text.isAsciiDigit && !(whole ++ fraction).isEmpty) = true := by
  have hpoint : Text.isAsciiDigit '.' = false := rfl
  obtain ⟨hmem, hcount, hnone⟩ : (∀ c ∈ whole ++ fraction, c ∈ literal) ∧
      (1 < literal.count '.' ↔ '.' ∈ fraction) ∧
      ((∀ c ∈ literal, Text.isAsciiDigit c = false) ↔
        ∀ c ∈ whole ++ fraction, Text.isAsciiDigit c = false) := by
    have hzero : whole.count '.' = 0 := List.count_eq_zero.mpr hwhole
    rcases hliteral with ⟨rfl, rfl⟩ | rfl
    · simp [hzero]
    · refine ⟨fun c => by simp; tauto, ?_, by simp [hpoint, or_imp, forall_and]⟩
      rw [List.count_append, hzero, List.count_cons_self, ← List.count_pos_iff]
      omega
  rw [Malformed, hcount, hnone, Bool.and_eq_true, List.all_eq_true, Bool.not_eq_true',
    List.isEmpty_eq_false_iff]
  by_cases hfraction : '.' ∈ fraction
  · -- The second point is no digit.
    refine iff_of_true (.inr hfraction) fun h => ?_
    simp [h.1 '.' (by simp [hfraction])] at hpoint
  · have hdigits : ∀ c ∈ whole ++ fraction, Text.isAsciiDigit c = true := by
      intro c hc
      refine isAsciiDigit_of_ne_point (hparts c (hmem c hc)) ?_
      rintro rfl
      exact (List.mem_append.mp hc).elim hwhole hfraction
    have hempty : (∀ c ∈ whole ++ fraction, Text.isAsciiDigit c = false) ↔ whole ++ fraction = [] := by
      refine ⟨fun h => List.eq_nil_iff_forall_not_mem.mpr fun c hc => ?_, fun h => by simp [h]⟩
      simpa [hdigits c hc] using h c hc
    rw [hempty, or_iff_left hfraction, not_and, not_not]
    exact ⟨fun h _ => h, fun h => h hdigits⟩

/-- Digits and points are read as the decimal fraction that they stand for, unless they are
malformed. -/
theorem ofPositional?_eq (hparts : ∀ c ∈ literal, isNumberPart c = true) :
    (Malformed literal → Decimal.ofPositional? literal = none) ∧
      (¬ Malformed literal → ∃ d, Decimal.ofPositional? literal = some d ∧ d.value = value literal) := by
  obtain ⟨whole, fraction, htake, hdrop, hwhole, hliteral⟩ := exists_parts literal
  have hpositional : Decimal.ofPositional? literal =
      if (whole ++ fraction).all Text.isAsciiDigit && !(whole ++ fraction).isEmpty then
        some ⟨Nat.ofDigitChars 10 (whole ++ fraction) 0, -(fraction.length : Int)⟩
      else none := by
    rw [Decimal.ofPositional?, htake, hdrop]
  have hvalue : Decimal.value ⟨Nat.ofDigitChars 10 (whole ++ fraction) 0, -(fraction.length : Int)⟩ =
      value literal := by
    rw [Decimal.value, value, htake, hdrop, wholeValue_eq, fractionValue_eq, Nat.ofDigitChars_append,
      Nat.ofDigitChars_eq_ofDigitChars_zero, zpow_neg, zpow_natCast]
    push_cast
    field_simp
  have hmalformed := malformed_iff hparts hwhole hliteral
  rw [hpositional, ← hvalue]
  constructor
  · intro h
    rw [if_neg (hmalformed.mp h)]
  · intro h
    rw [if_pos (not_not.mp (hmalformed.not.mp h))]
    exact ⟨_, rfl, rfl⟩

private theorem value_digitChars (n : Nat) :
    ¬ Malformed (Decimal.digitChars n) ∧ value (Decimal.digitChars n) = n := by
  have hdigits : ∀ c ∈ Decimal.digitChars n, Text.isAsciiDigit c = true := fun _ =>
    Double.isAsciiDigit_of_mem_digitChars
  have hpoint : ∀ c ∈ Decimal.digitChars n, (c != '.') = true := fun c hc =>
    Text.isAsciiDigit_ne_point (hdigits c hc)
  constructor
  · rintro (hnone | hcount)
    · obtain ⟨c, hc⟩ := List.exists_mem_of_length_pos (Decimal.length_digitChars_pos n)
      simpa [hdigits c hc] using hnone c hc
    · rw [List.count_eq_zero.mpr fun h => by simpa using hpoint '.' h] at hcount
      exact absurd hcount (by decide)
  · have htake : (Decimal.digitChars n ++ []).takeWhile (· != '.') = _ :=
      List.takeWhile_append_of_pos hpoint
    have hdrop : (Decimal.digitChars n ++ []).dropWhile (· != '.') = _ :=
      List.dropWhile_append_of_pos hpoint
    rw [List.append_nil] at htake hdrop
    simp [value, htake, hdrop, wholeValue_eq, Double.ofDigitChars_digitChars, fractionValue]

/-- What is answered for digits and points, by what they are. -/
theorem numberToken_cases (hparts : ∀ c ∈ literal, isNumberPart c = true) (place : Pos) :
    (Malformed literal →
      numberToken literal place = .error ⟨.malformed (String.ofList literal), place⟩) ∧
    (¬ Malformed literal → 2 ^ 1024 - 2 ^ 970 ≤ value literal →
      numberToken literal place = .error ⟨.outOfRange, place⟩) ∧
    (¬ Malformed literal → value literal < 2 ^ 1024 - 2 ^ 970 →
      ∃ index, numberToken literal place = .ok ⟨.number (.finite false index), place⟩ ∧
        ∀ other, Double.Nearest (value literal) other ↔ other = index) := by
  obtain ⟨hnone, hsome⟩ := ofPositional?_eq hparts
  refine ⟨fun h => ?_, fun h hlimit => ?_, fun h hlimit => ?_⟩
  · rw [numberToken, hnone h]
    rfl
  · obtain ⟨d, hd, hvalue⟩ := hsome h
    rw [← hvalue] at hlimit
    rw [numberToken, hd, Option.map_some, d.toDouble_infinite false hlimit]
    rfl
  · obtain ⟨d, hd, hvalue⟩ := hsome h
    rw [← hvalue] at hlimit ⊢
    obtain ⟨index, hindex, hnearest⟩ := d.toDouble_nearest false hlimit
    refine ⟨index, ?_, hnearest⟩
    rw [numberToken, hd, Option.map_some, hindex]
    rfl

private theorem quotedChar_numberPart {c : Char} (hc : isNumberPart c = true) :
    Text.quotedChar '\'' c = [c] := by
  have hrange : c.toNat = 46 ∨ 48 ≤ c.toNat ∧ c.toNat ≤ 57 := by
    rcases Bool.or_eq_true_iff.mp hc with h | h
    · exact .inr (Text.isAsciiDigit_iff.mp h)
    · exact .inl (congrArg Char.toNat (eq_of_beq h))
  have hne {d : Char} (hd : d.toNat < 46 ∨ 57 < d.toNat) : c ≠ d := by
    rintro rfl
    omega
  have hprintable : Text.isPrintable c = true := by
    have hapart (ranges : List (Nat × Nat)) :
        Text.covers ((0, 31) :: (127, 160) :: ranges) c.toNat = false := by
      simp only [Text.covers, Bool.or_eq_false_iff, if_neg (Nat.not_lt_zero _), decide_eq_false_iff_not]
      exact ⟨by omega, if_pos (by omega)⟩
    rw [Text.isPrintable, Text.unprintableRanges, hapart, Bool.not_false]
  rw [Text.quotedChar, if_neg (by simp [hne]), if_neg (hne (by decide)), if_neg (hne (by decide)),
    if_neg (hne (by decide)), if_pos hprintable]

private theorem quoted_eq (hparts : ∀ c ∈ literal, isNumberPart c = true) :
    Text.quoted (String.ofList literal) = "'" ++ String.ofList literal ++ "'" := by
  have hquote : '\'' ∉ literal := fun hmem => absurd (hparts _ hmem) (by decide)
  have hplain : literal.flatMap (Text.quotedChar '\'') = literal := by
    rw [List.flatMap_congr fun c hc => quotedChar_numberPart (hparts c hc), List.flatMap_singleton']
  rw [Text.quoted, String.toList_ofList, Text.quoteFor, List.contains_eq_mem,
    decide_eq_false hquote]
  simp [hplain, String.ext_iff]

private theorem message_malformed (hparts : ∀ c ∈ literal, isNumberPart c = true) (place : Pos) :
    LexError.message ⟨.malformed (String.ofList literal), place⟩ =
      "Invalid number literal '" ++ String.ofList literal ++ "' at " ++ place.inWords := by
  have hmessage : LexError.message ⟨.malformed (String.ofList literal), place⟩ =
      "Invalid number literal " ++ Text.quoted (String.ofList literal) ++ " at " ++ place.inWords := rfl
  rw [hmessage, quoted_eq hparts]
  simp [String.ext_iff]

end Literal

open Literal in
/-- All digits and points that stand together are taken, and the place of the first one is named,
whatever is answered for them. They are refused if there is no digit or more than one point, and
otherwise if their exact value is too large; the message says which, and where. The magnitude
answered for any other value is the one nearest to it. -/
theorem token_number {gap literal rest : List Char} (hgap : Trivia (literal ++ rest) gap)
    (hne : literal ≠ []) (hparts : ∀ c ∈ literal, isNumberPart c = true)
    (hend : ∀ c ∈ rest.head?, isNumberPart c = false) (start : Pos) (before : List Char) :
    ∃ found, Cursor.token ⟨gap ++ (literal ++ rest), start.behind before⟩ =
        (found, ⟨rest, start.behind (before ++ (gap ++ literal))⟩) ∧
      (found = .error ⟨.malformed (String.ofList literal), start.behind (before ++ gap)⟩ ↔
        Malformed literal) ∧
      (found = .error ⟨.outOfRange, start.behind (before ++ gap)⟩ ↔
        ¬ Malformed literal ∧ 2 ^ 1024 - 2 ^ 970 ≤ value literal) ∧
      (¬ Malformed literal → value literal < 2 ^ 1024 - 2 ^ 970 →
        ∃ index, found = .ok ⟨.number (.finite false index), start.behind (before ++ gap)⟩ ∧
          ∀ other, Double.Nearest (value literal) other ↔ other = index) ∧
      (Malformed literal → found.mapError LexError.message =
        .error ("Invalid number literal '" ++ String.ofList literal ++ "' at " ++
          (start.behind (before ++ gap)).inWords)) ∧
      (¬ Malformed literal → 2 ^ 1024 - 2 ^ 970 ≤ value literal →
        found.mapError LexError.message =
          .error ("Number literal out of range at " ++ (start.behind (before ++ gap)).inWords)) := by
  have hlexeme := Cursor.lexeme?_eq_lexedAs hgap (.number hne hparts hend) (start.behind before)
  rw [lexedAs_number hne hparts, ← Pos.behind_append, ← Pos.behind_append] at hlexeme
  refine ⟨_, by rw [Cursor.token, hlexeme], ?_⟩
  generalize start.behind (before ++ gap) = place
  obtain ⟨hmalformed, hrange, hnumber⟩ := numberToken_cases hparts place
  refine ⟨⟨fun h => ?_, hmalformed⟩, ⟨fun h => ?_, fun h => hrange h.1 h.2⟩, hnumber, fun h => ?_,
    fun h hlimit => ?_⟩
  · by_contra hregular
    rcases le_or_gt (2 ^ 1024 - 2 ^ 970) (value literal) with hlimit | hlimit
    · cases h.symm.trans (hrange hregular hlimit)
    · obtain ⟨_, hfound, _⟩ := hnumber hregular hlimit
      cases h.symm.trans hfound
  · by_cases hregular : Malformed literal
    · cases h.symm.trans (hmalformed hregular)
    · refine ⟨hregular, not_lt.mp fun hlimit => ?_⟩
      obtain ⟨_, hfound, _⟩ := hnumber hregular hlimit
      cases h.symm.trans hfound
  · rw [hmalformed h, Except.mapError, message_malformed hparts]
  · rw [hrange h hlimit]
    rfl

/-- Half way between two magnitudes, a number is read as the even one, and half way between the last
magnitude and the next power of two it is out of range. -/
theorem token_number_halfWay :
    (Cursor.token ⟨"#.\n9007199254740993)".toList, ⟨2, 5⟩⟩ =
        (.ok ⟨.number (.finite false ⟨4845873199050653696, by decide⟩), ⟨3, 1⟩⟩,
          ⟨[')'], ⟨3, 17⟩⟩) ∧
      Double.Nearest 9007199254740993 ⟨4845873199050653696, by decide⟩) ∧
    (Cursor.token ⟨Decimal.digitChars (2 ^ 1024 - 2 ^ 970), ⟨1, 1⟩⟩).1 =
      .error ⟨.outOfRange, ⟨1, 1⟩⟩ := by
  have hparts (n : Nat) : ∀ c ∈ Decimal.digitChars n, isNumberPart c = true := fun c hc => by
    simp [isNumberPart, Double.isAsciiDigit_of_mem_digitChars hc]
  have hne (n : Nat) : Decimal.digitChars n ≠ [] :=
    List.length_pos_iff.mp (Decimal.length_digitChars_pos n)
  constructor
  · have hgap : Trivia (Decimal.digitChars 9007199254740993 ++ [')']) ['#', '.', '\n'] :=
      @Trivia.comment _ ['.'] ['\n'] (by simp) (by simp) (.blank Text.isBlank_lineFeed .nil)
    have hend : ∀ c ∈ [')'].head?, isNumberPart c = false := by
      rintro c ⟨⟩
      decide
    obtain ⟨hregular, hvalue⟩ := Literal.value_digitChars 9007199254740993
    obtain ⟨found, htoken, _, _, hnumber, _⟩ :=
      token_number hgap (hne _) (hparts _) hend ⟨2, 5⟩ []
    have hlimit : (9007199254740993 : ℚ) < 2 ^ 1024 - 2 ^ 970 := by
      have hpow : (1 : ℚ) ≤ 2 ^ 970 := one_le_pow₀ one_le_two
      rw [show 1024 = 54 + 970 from rfl, pow_add]
      generalize (2 : ℚ) ^ 970 = p at hpow ⊢
      linarith
    rw [hvalue] at hnumber
    obtain ⟨index, rfl, hnearest⟩ := hnumber hregular hlimit
    have hcomputed : Cursor.token ⟨"#.\n9007199254740993)".toList, ⟨2, 5⟩⟩ =
        (.ok ⟨.number (.finite false ⟨4845873199050653696, by decide⟩), ⟨3, 1⟩⟩,
          ⟨[')'], ⟨3, 17⟩⟩) := by decide +kernel
    refine ⟨hcomputed, (hnearest _).mpr ?_⟩
    have hfound := (Prod.mk.inj (hcomputed.symm.trans htoken)).1
    simp only [Except.ok.injEq, Token.mk.injEq, TokenKind.number.injEq, Double.finite.injEq] at hfound
    exact hfound.1.2
  · have hcast {k m : Nat} (h : k ≤ m) : ((2 ^ m - 2 ^ k : Nat) : ℚ) = 2 ^ m - 2 ^ k := by
      rw [Nat.cast_sub (Nat.pow_le_pow_right two_pos h), Nat.cast_pow, Nat.cast_pow, Nat.cast_ofNat]
    have hlimit := hcast (show 970 ≤ 1024 by decide)
    generalize (2 ^ 1024 - 2 ^ 970 : Nat) = n at hlimit ⊢
    obtain ⟨hregular, hvalue⟩ := Literal.value_digitChars n
    obtain ⟨found, htoken, _, hrange, _⟩ :=
      @token_number [] _ [] .nil (hne n) (hparts n) (by simp) ⟨1, 1⟩ []
    have hstart : Pos.behind ⟨1, 1⟩ [] = ⟨1, 1⟩ := rfl
    rw [List.nil_append, List.append_nil, hstart] at htoken
    rw [htoken]
    exact hrange.mpr ⟨hregular, by rw [hvalue, hlimit]⟩

end ExprLang
