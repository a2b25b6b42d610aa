import ExprLang.Proofs.Number.Rounding

/-! The range of doubles in powers of ten. A decimal fraction that reads as a number is never so
large or so small that its size alone decides what it is read as. -/
namespace ExprLang

namespace Decimal

def size (d : Decimal) : Int := ((digitChars d.digits).length : Int) + d.exponent

theorem length_digitChars_pos (n : Nat) : 0 < (digitChars n).length := by
  rw [digitChars, Nat.toDigits_eq_if (by decide)]
  split <;> simp

theorem toList_toString (n : Nat) : (toString n).toList = digitChars n := by
  rw [Nat.toString_eq_ofList_toDigits, String.toList_ofList, digitChars]

private theorem lt_pow_length (n : Nat) : n < Nat.pow 10 (digitChars n).length :=
  (Nat.length_toDigits_le_iff (by decide) (length_digitChars_pos n)).mp (Nat.le_refl _)

private theorem pow_length_le {n : Nat} (hn : n ≠ 0) :
    Nat.pow 10 ((digitChars n).length - 1) ≤ n := by
  by_cases hone : (digitChars n).length ≤ 1
  · rw [Nat.sub_eq_zero_of_le hone]
    exact Nat.pos_of_ne_zero hn
  · have hlt := Nat.length_toDigits_le_iff (b := 10) (n := n) (k := (digitChars n).length - 1)
      (by decide) (by omega)
    exact Nat.not_lt.mp fun h => absurd (hlt.mpr h) (by rw [← digitChars]; omega)

variable {d : Decimal}

private theorem fraction_lt {k : Nat} (h : d.size + k ≤ 0) :
    d.fraction.1 * Nat.pow 10 k < d.fraction.2 := by
  have hpos := length_digitChars_pos d.digits
  have hlt := lt_pow_length d.digits
  rw [size] at h
  simp only [fraction, if_neg (show ¬ 0 ≤ d.exponent by omega), Nat.pow_eq]
  calc d.digits * 10 ^ k < 10 ^ (digitChars d.digits).length * 10 ^ k :=
        Nat.mul_lt_mul_of_pos_right hlt (Nat.pow_pos (by decide))
    _ = 10 ^ ((digitChars d.digits).length + k) := (Nat.pow_add ..).symm
    _ ≤ 10 ^ (-d.exponent).toNat := Nat.pow_le_pow_right (by decide) (by omega)

private theorem le_fraction (hd : d.digits ≠ 0) {k : Nat} (h : k < d.size) :
    d.fraction.2 * Nat.pow 10 k ≤ d.fraction.1 := by
  have hle := pow_length_le hd
  rw [size] at h
  by_cases he : 0 ≤ d.exponent
  · simp only [fraction, if_pos he, Nat.pow_eq, Nat.one_mul]
    calc 10 ^ k ≤ 10 ^ ((digitChars d.digits).length - 1 + d.exponent.toNat) :=
          Nat.pow_le_pow_right (by decide) (by omega)
      _ = 10 ^ ((digitChars d.digits).length - 1) * 10 ^ d.exponent.toNat := Nat.pow_add ..
      _ ≤ d.digits * 10 ^ d.exponent.toNat := Nat.mul_le_mul_right _ hle
  · simp only [fraction, if_neg he, Nat.pow_eq]
    calc 10 ^ (-d.exponent).toNat * 10 ^ k = 10 ^ ((-d.exponent).toNat + k) := (Nat.pow_add ..).symm
      _ ≤ 10 ^ ((digitChars d.digits).length - 1) := Nat.pow_le_pow_right (by decide) (by omega)
      _ ≤ d.digits := hle

end Decimal

namespace Double

private theorem units_le_of_le {m n : Nat} (h : m ≤ n) : units m ≤ units n := by
  induction h with
  | refl => exact Nat.le_refl _
  | step _ ih => exact Nat.le_trans ih (Nat.le_of_lt (units_lt_succ _))

private def magnitudeBound : Nat := Nat.pow 2 1024

private theorem units_magnitudeCount : units magnitudeCount = magnitudeBound * unitsInOne := by
  rw [units_of_le (by decide), magnitudeCount, Nat.mul_mod_left, Nat.mul_div_cancel _ (by decide)]
  decide +kernel

private theorem le_of_reaches {num den index : Nat} (hindex : 0 < index)
    (h : reaches num den index = true) : den ≤ 2 * num * unitsInOne := by
  obtain ⟨below, rfl⟩ := Nat.exists_eq_add_of_lt hindex
  rw [Nat.zero_add, reaches_succ_iff] at h
  have hunits := units_lt_succ below
  have hle : den * 1 ≤ den * (units below + units (below + 1)) :=
    Nat.mul_le_mul_left _ (by omega)
  omega

private theorem le_of_not_reaches {num den index : Nat} (hindex : index < magnitudeCount)
    (h : reaches num den (index + 1) = false) : num ≤ den * magnitudeBound := by
  have hpos : 0 < 2 * unitsInOne := by decide +kernel
  have hmiddle : 2 * num * unitsInOne ≤ den * (units index + units (index + 1)) := by
    rw [Bool.eq_false_iff, Ne, reaches_succ_iff] at h
    omega
  have hlast := units_le_of_le hindex
  refine Nat.le_of_mul_le_mul_right (c := 2 * unitsInOne) ?_ hpos
  calc num * (2 * unitsInOne) = 2 * num * unitsInOne := by rw [← Nat.mul_assoc, Nat.mul_comm num]
    _ ≤ den * (units index + units (index + 1)) := hmiddle
    _ ≤ den * (units magnitudeCount + units magnitudeCount) :=
      Nat.mul_le_mul_left _ (Nat.add_le_add (units_le_of_le (Nat.le_of_lt hindex)) hlast)
    _ = den * magnitudeBound * (2 * unitsInOne) := by
      rw [units_magnitudeCount, ← Nat.two_mul, Nat.mul_assoc, Nat.mul_left_comm 2]

end Double

namespace Decimal
variable {d : Decimal} {index : Nat}

theorem digits_ne_zero_of_readsAs (hindex : 0 < index) (h : Double.readsAs d index = true) :
    d.digits ≠ 0 := by
  intro hzero
  have hle := Double.le_of_reaches hindex (Double.readsAs_iff.mp h).1
  have hnum : d.fraction.1 = 0 := by
    rw [fraction]
    split <;> simp [hzero]
  have hden := d.fraction_pos
  rw [hnum] at hle
  omega

private theorem lt_size_of_readsAs {k : Nat} (hk : 2 * unitsInOne ≤ Nat.pow 10 k)
    (hindex : 0 < index) (h : Double.readsAs d index = true) : -(k : Int) < d.size := by
  refine Int.not_le.mp fun hsize => ?_
  have hle := Double.le_of_reaches hindex (Double.readsAs_iff.mp h).1
  have hlt := fraction_lt (d := d) (k := k) (by omega)
  refine Nat.lt_irrefl _ (Nat.lt_of_lt_of_le hlt (Nat.le_trans hle ?_))
  rw [Nat.mul_comm 2, Nat.mul_assoc]
  exact Nat.mul_le_mul_left _ hk

private theorem size_le_of_readsAs {k : Nat} (hk : Double.magnitudeBound < Nat.pow 10 k)
    (hlast : index < magnitudeCount) (hd : d.digits ≠ 0) (h : Double.readsAs d index = true) :
    d.size ≤ k := by
  refine Int.not_lt.mp fun hsize => ?_
  have hle := Double.le_of_not_reaches hlast (Double.readsAs_iff.mp h).2
  have hge := le_fraction hd hsize
  exact absurd hk (Nat.not_lt.mpr
    (Nat.le_of_mul_le_mul_left (Nat.le_trans hge hle) d.fraction_pos))

/-- A decimal fraction that reads as a number above zero is not cut off as too small or too
large. -/
theorem size_of_readsAs (hlast : index < magnitudeCount) (hindex : 0 < index)
    (h : Double.readsAs d index = true) : -330 ≤ d.size ∧ d.size ≤ 310 := by
  have hlow := lt_size_of_readsAs (k := 330) (by decide +kernel) hindex h
  exact ⟨by omega, size_le_of_readsAs (k := 310) (by decide +kernel) hlast
    (digits_ne_zero_of_readsAs hindex h) h⟩

/-- A decimal fraction is rounded to the magnitude that it reads as, whatever its exponent is. -/
theorem toDoubleAnyExponent_of_readsAs (negative : Bool) {index : Fin magnitudeCount}
    (h : Double.readsAs d index = true) :
    d.toDoubleAnyExponent negative = .finite negative index := by
  have hzero : index.val = 0 → Double.ofIndex negative 0 = .finite negative index := fun hindex => by
    rw [← hindex]
    exact Double.ofIndex_of_lt negative index.isLt
  rw [toDoubleAnyExponent, ← size]
  split
  · rename_i hsmall
    refine hzero (Nat.eq_zero_of_not_pos fun hpos => ?_)
    have hdigits := digits_ne_zero_of_readsAs hpos h
    have hlow := (size_of_readsAs index.isLt hpos h).1
    simp only [hdigits, Bool.or_eq_true, decide_eq_true_eq, false_or] at hsmall
    omega
  · rename_i hsmall
    have hdigits : d.digits ≠ 0 := fun hd => hsmall (by simp [hd])
    have hhigh : d.size ≤ 310 :=
      size_le_of_readsAs (k := 310) (by decide +kernel) index.isLt hdigits h
    rw [if_neg (Int.not_lt.mpr hhigh)]
    exact Double.toDouble_of_readsAs negative h

end Decimal
end ExprLang
