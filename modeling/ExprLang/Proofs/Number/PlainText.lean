import ExprLang.Proofs.Lexing.Lexeme
import ExprLang.Proofs.Number.Range
import Mathlib.Data.List.Basic

/-! The plain text of a number has no needless zeros, and is read as the number whatever stands
behind it, unless that goes on with the number. -/
namespace ExprLang

namespace Decimal

private theorem digitChars_ne_nil (n : Nat) : digitChars n ≠ [] :=
  List.length_pos_iff.mp (length_digitChars_pos n)

private theorem head?_digitChars {n : Nat} (hn : n ≠ 0) : (digitChars n).head? ≠ some '0' := by
  induction n using Nat.strongRecOn with
  | ind n ih =>
    rw [digitChars, Nat.toDigits_eq_if (by decide)]
    split
    · rename_i hlt
      have hdigit : ∀ n < 10, n ≠ 0 → Nat.digitChar n ≠ '0' := by decide
      simpa using hdigit n hlt hn
    · rename_i hle
      have hfirst := ih (n / 10) (by omega) (by omega)
      rwa [← List.head?_append_of_ne_nil _ (digitChars_ne_nil (n / 10))] at hfirst

end Decimal

namespace Double

/-- The parts of a number before and behind its point. There are no zeros in front of the first one,
unless it is a zero alone, and none at the end of the second one. -/
structure PlainParts (parts : List Char × List Char) : Prop where
  digits : ∀ c ∈ parts.1 ++ parts.2, Text.isAsciiDigit c = true
  whole : parts.1 ≠ []
  leading : parts.1 = ['0'] ∨ parts.1.head? ≠ some '0'
  trailing : parts.2.getLast? ≠ some '0'

private theorem significant_ends {d : Decimal} (hd : d.digits ≠ 0) : (significant d).1 ≠ [] ∧
    (significant d).1.head? ≠ some '0' ∧ (significant d).1.getLast? ≠ some '0' := by
  have hne : (significant d).1 ≠ [] := by
    intro hnil
    obtain ⟨n, hn, _⟩ := significant_value d
    rw [hnil] at hn
    exact hd (by simpa using hn)
  refine ⟨hne, ?_, ?_⟩
  · obtain ⟨n, hall⟩ : ∃ n, Decimal.digitChars d.digits = (significant d).1 ++ List.replicate n '0' :=
      exists_replicate '0' (Decimal.digitChars d.digits)
    have hhead := Decimal.head?_digitChars hd
    rw [hall, List.head?_append_of_ne_nil _ hne] at hhead
    exact hhead
  · intro hlast
    rw [significant, List.getLast?_reverse] at hlast
    have hstop := List.head?_dropWhile_not (· == '0') (Decimal.digitChars d.digits).reverse
    rw [hlast] at hstop
    simp at hstop

private theorem plainParts_positional {digits : List Char} (point : Int) (hne : digits ≠ [])
    (hdigits : ∀ c ∈ digits, Text.isAsciiDigit c = true) (hhead : digits.head? ≠ some '0')
    (hlast : digits.getLast? ≠ some '0') : PlainParts (positional digits point) := by
  obtain ⟨hwhole, hall⟩ := positional_digits point hdigits
  refine ⟨hall, hwhole, ?_, ?_⟩
  · by_cases hpoint : point ≤ 0
    · rw [positional_of_le hpoint]
      exact .inl rfl
    · rw [positional_of_lt (Int.not_le.mp hpoint)]
      have htake : digits.take point.toNat ≠ [] := by
        rw [Ne, List.take_eq_nil_iff]
        exact fun h => h.elim (by omega) hne
      right
      rw [List.head?_append_of_ne_nil _ htake, List.head?_take, if_neg (by omega)]
      exact hhead
  · by_cases hpoint : point ≤ 0
    · rw [positional_of_le hpoint, List.getLast?_append_of_ne_nil _ hne]
      exact hlast
    · rw [positional_of_lt (Int.not_le.mp hpoint), List.getLast?_drop]
      split
      · simp
      · exact hlast

/-- A magnitude is written without needless zeros. -/
theorem exists_plainParts (index : Nat) :
    ∃ parts, PlainParts parts ∧ plainMagnitudeText index = pointed parts := by
  by_cases hindex : index = 0
  · rw [plainMagnitudeText, if_pos hindex]
    exact ⟨(['0'], []), ⟨List.all_eq_true.mp rfl, by simp, .inl rfl, by simp⟩, rfl⟩
  · rw [plainMagnitudeText, if_neg hindex, plainDecimalText_eq]
    obtain ⟨hne, hhead, hlast⟩ := significant_ends
      (Decimal.digits_ne_zero_of_readsAs (Nat.pos_of_ne_zero hindex) (shortest_readsAs index))
    exact ⟨_, plainParts_positional _ hne (significant_digits _) hhead hlast, rfl⟩

end Double

variable (index : Fin magnitudeCount)

private theorem toList_plainText :
    (Double.finite false index).plainText.toList = Double.plainMagnitudeText index := by
  rw [Double.plainText, String.toList_ofList]
  rfl

private theorem token_plainText_append {rest : String} (pos : Pos)
    (hrest : ∀ c ∈ rest.toList.head?, isNumberPart c = false) :
    (Cursor.ofText ((Double.finite false index).plainText ++ rest) pos).token =
      (.ok ⟨.number (.finite false index), pos⟩,
        .ofText rest (pos.afterAll (Double.finite false index).plainText.toList)) := by
  obtain ⟨hne, hparts⟩ := Double.plainMagnitudeText_parts index
  have hnumber := Cursor.lexeme?_eq_lexedAs .nil (.number hne hparts hrest) pos
  rw [lexedAs_number hne hparts, Pos.afterAll_nil, numberToken_plainMagnitudeText] at hnumber
  simp only [List.nil_append] at hnumber
  rw [Cursor.ofText, String.toList_append, toList_plainText, Cursor.token, hnumber]
  rfl

/-- Every finite number without a sign has a plain text of its own: digits, and a point only before
a fraction, with no needless zeros. Whatever stands behind it and does not go on with it, it is read
as the number and no further. -/
theorem plainText_survives :
    (∃ parts, Double.PlainParts parts ∧
      (Double.finite false index).plainText.toList = Double.pointed parts) ∧
    (∀ (rest : String) (pos : Pos), (∀ c ∈ rest.toList.head?, isNumberPart c = false) →
      (Cursor.ofText ((Double.finite false index).plainText ++ rest) pos).token =
        (.ok ⟨.number (.finite false index), pos⟩,
          .ofText rest (pos.afterAll (Double.finite false index).plainText.toList))) ∧
    ∀ other : Fin magnitudeCount, (Double.finite false index).plainText =
      (Double.finite false other).plainText → index = other := by
  refine ⟨?_, fun rest pos => token_plainText_append index pos, fun other htext => ?_⟩
  · rw [toList_plainText]
    exact Double.exists_plainParts index
  · -- The text alone is read as both numbers.
    have hread (index : Fin magnitudeCount) := @token_plainText_append index "" .start (by simp)
    have hone := hread index
    rw [htext, hread other] at hone
    simp only [Prod.mk.injEq, Except.ok.injEq, Token.mk.injEq, TokenKind.number.injEq,
      Double.finite.injEq, true_and, and_true] at hone
    exact hone.symm

/-- The least number above zero takes over three hundred zeros, a word ends it, and it is written
otherwise than the next one. -/
theorem plainText_survives_least :
    (Double.finite false ⟨1, by decide⟩).plainText =
      String.ofList ('0' :: '.' :: List.replicate 323 '0' ++ ['5']) ∧
    (Cursor.ofText ((Double.finite false ⟨1, by decide⟩).plainText ++ "e3") .start).token =
      (.ok ⟨.number (.finite false ⟨1, by decide⟩), ⟨1, 1⟩⟩, .ofText "e3" ⟨1, 327⟩) ∧
    (Double.finite false ⟨1, by decide⟩).plainText ≠
      (Double.finite false ⟨2, by decide⟩).plainText := by
  obtain ⟨_, hread, hdistinct⟩ := plainText_survives ⟨1, by decide⟩
  have htext : (Double.finite false ⟨1, by decide⟩).plainText =
      String.ofList ('0' :: '.' :: List.replicate 323 '0' ++ ['5']) := by decide +kernel
  have hbehind : Pos.start.afterAll ('0' :: '.' :: List.replicate 323 '0' ++ ['5']) = ⟨1, 327⟩ := by
    decide +kernel
  refine ⟨htext, ?_, fun h => by simpa using hdistinct _ h⟩
  have hletter : isNumberPart 'e' = false := rfl
  have hfirst := hread "e3" .start (by simpa using hletter)
  rw [htext, String.toList_ofList, hbehind] at hfirst
  rw [htext]
  exact hfirst

end ExprLang
