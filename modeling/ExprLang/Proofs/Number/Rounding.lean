import ExprLang.Number.Shortest

/-! Rounding fractions to doubles. A decimal fraction that reads as a magnitude is rounded to it. -/
namespace ExprLang
namespace Double

theorem ofIndex_of_lt (negative : Bool) {index : Nat} (h : index < magnitudeCount) :
    ofIndex negative index = .finite negative ⟨index, h⟩ := by
  rw [ofIndex, dif_pos h]

theorem ofIndex_of_not_lt (negative : Bool) {index : Nat} (h : ¬ index < magnitudeCount) :
    ofIndex negative index = .infinite negative := by
  rw [ofIndex, dif_neg h]

theorem fractionCount_eq : fractionCount = 4503599627370496 := rfl

theorem units_of_lt {index : Nat} (h : index < fractionCount) : units index = index := if_pos h

theorem units_of_le {index : Nat} (h : fractionCount ≤ index) : units index =
    (fractionCount + index % fractionCount) * Nat.pow 2 (index / fractionCount - 1) :=
  if_neg (Nat.not_lt.mpr h)

/-- Magnitudes are numbered in order of size. -/
theorem units_lt_succ (index : Nat) : units index < units (index + 1) := by
  have hcount := fractionCount_eq
  by_cases hsmall : index + 1 < fractionCount
  · rw [units_of_lt (by omega), units_of_lt hsmall]
    exact Nat.lt_succ_self _
  by_cases hfirst : index < fractionCount
  · rw [units_of_lt hfirst, units_of_le (by omega),
      show (index + 1) / fractionCount - 1 = 0 by rw [hcount]; omega]
    show index < (fractionCount + (index + 1) % fractionCount) * 1
    omega
  rw [units_of_le (by omega), units_of_le (by omega), Nat.pow_eq, Nat.pow_eq]
  have hpos : 0 < 2 ^ (index / fractionCount - 1) := Nat.two_pow_pos _
  by_cases hlast : index % fractionCount + 1 = fractionCount
  · have hpower : 2 ^ (index / fractionCount - 1) * 2 = 2 ^ (index / fractionCount) :=
      Nat.pow_pred_mul (by rw [hcount] at *; omega)
    rw [show (index + 1) % fractionCount = 0 by rw [hcount] at *; omega,
      show (index + 1) / fractionCount - 1 = index / fractionCount by rw [hcount] at *; omega,
      ← hpower, show index % fractionCount = fractionCount - 1 by omega, Nat.add_zero,
      Nat.mul_comm _ 2, ← Nat.mul_assoc]
    exact Nat.mul_lt_mul_of_pos_right (by omega) hpos
  · rw [show (index + 1) % fractionCount = index % fractionCount + 1 by rw [hcount] at *; omega,
      show (index + 1) / fractionCount = index / fractionCount by rw [hcount] at *; omega]
    exact Nat.mul_lt_mul_of_pos_right (by omega) hpos

theorem reaches_succ_iff {num den index : Nat} : reaches num den (index + 1) = true ↔
    den * (units index + units (index + 1)) < 2 * num * unitsInOne ∨
      den * (units index + units (index + 1)) = 2 * num * unitsInOne ∧ (index + 1) % 2 = 0 := by
  unfold reaches
  rw [Bool.or_eq_true, Bool.and_eq_true, decide_eq_true_iff, beq_iff_eq, beq_iff_eq]

private theorem reaches_of_succ {num den index : Nat} (hden : 0 < den)
    (h : reaches num den (index + 1) = true) : reaches num den index = true := by
  cases index with
  | zero => rfl
  | succ below =>
    rw [reaches_succ_iff] at h ⊢
    have hbelow := units_lt_succ below
    have habove := units_lt_succ (below + 1)
    have hlt : den * (units below + units (below + 1)) <
        den * (units (below + 1) + units (below + 1 + 1)) :=
      Nat.mul_lt_mul_of_pos_left (by omega) hden
    omega

theorem reaches_of_le {num den m n : Nat} (hden : 0 < den) (hmn : m ≤ n)
    (h : reaches num den n = true) : reaches num den m = true := by
  induction hmn with
  | refl => exact h
  | step _ ih => exact ih (reaches_of_succ hden h)

private theorem reaches_scale {c : Nat} (hc : 0 < c) (num den index : Nat) :
    reaches (num * c) (den * c) index = reaches num den index := by
  cases index with
  | zero => rfl
  | succ below =>
    rw [Bool.eq_iff_iff, reaches_succ_iff, reaches_succ_iff, Nat.mul_right_comm den c,
      ← Nat.mul_assoc 2 num c, Nat.mul_right_comm (2 * num) c, Nat.mul_lt_mul_right hc,
      Nat.mul_left_inj (Nat.ne_of_gt hc)]

/-- Bisection passes all numbers with a downward closed property. -/
theorem le_bisect {holds : Nat → Bool} (hdown : ∀ m n, m ≤ n → holds n = true → holds m = true)
    {bits base m : Nat} (hhigh : m < base + Nat.pow 2 bits) (hholds : holds m = true) :
    m ≤ bisect holds bits base := by
  induction bits generalizing base with
  | zero =>
    rw [Nat.pow_eq, Nat.pow_zero] at hhigh
    rw [bisect]
    omega
  | succ bits ih =>
    rw [Nat.pow_eq, Nat.pow_succ, ← Nat.pow_eq] at hhigh
    rw [bisect]
    split
    · exact ih (by omega)
    · rename_i hmiddle
      exact ih (Nat.not_le.mp fun hle => hmiddle (hdown _ _ hle hholds))

/-- Bisection stops at a number with the property. -/
theorem holds_bisect {holds : Nat → Bool} {bits base : Nat} (hbase : holds base = true) :
    holds (bisect holds bits base) = true := by
  induction bits generalizing base with
  | zero => exact hbase
  | succ bits ih =>
    rw [bisect]
    split
    · rename_i hmiddle
      exact ih hmiddle
    · exact ih hbase

theorem reaches_nearestIndex (num den : Nat) : reaches num den (nearestIndex num den) = true :=
  holds_bisect rfl

theorem le_nearestIndex {num den index : Nat} (hden : 0 < den) (hindex : index < Nat.pow 2 63)
    (hreaches : reaches num den index = true) : index ≤ nearestIndex num den :=
  le_bisect (fun _ _ => reaches_of_le hden) (by omega) hreaches

theorem nearestIndex_eq {num den index : Nat} (hden : 0 < den) (hindex : index < Nat.pow 2 63)
    (hreaches : reaches num den index = true) (hends : reaches num den (index + 1) = false) :
    nearestIndex num den = index := by
  refine Nat.le_antisymm (Nat.not_lt.mp fun hlt => ?_) (le_nearestIndex hden hindex hreaches)
  rw [reaches_of_le hden hlt (reaches_nearestIndex num den)] at hends
  cases hends

end Double

namespace Decimal

theorem fraction_pos (d : Decimal) : 0 < d.fraction.2 := by
  unfold fraction
  split
  · exact Nat.one_pos
  · exact Nat.pow_pos (by decide)

private theorem fraction_scale (n k : Nat) (e : Int) : ∃ c, 0 < c ∧
    (fraction ⟨n * Nat.pow 10 k, e⟩).1 = (fraction ⟨n, e + k⟩).1 * c ∧
    (fraction ⟨n * Nat.pow 10 k, e⟩).2 = (fraction ⟨n, e + k⟩).2 * c := by
  simp only [fraction, Nat.pow_eq]
  by_cases he : 0 ≤ e
  · refine ⟨1, Nat.one_pos, ?_, ?_⟩
    · rw [if_pos he, if_pos (by omega), Nat.mul_one, Nat.mul_assoc, ← Nat.pow_add,
        show (e + k).toNat = k + e.toNat by omega]
    · rw [if_pos he, if_pos (by omega), Nat.mul_one]
  by_cases hk : 0 ≤ e + k
  · refine ⟨10 ^ (-e).toNat, Nat.pow_pos (by decide), ?_, ?_⟩
    · rw [if_neg he, if_pos hk, Nat.mul_assoc, ← Nat.pow_add,
        show (e + k).toNat + (-e).toNat = k by omega]
    · rw [if_neg he, if_pos hk, Nat.one_mul]
  · refine ⟨10 ^ k, Nat.pow_pos (by decide), ?_, ?_⟩
    · rw [if_neg he, if_neg hk]
    · rw [if_neg he, if_neg hk, ← Nat.pow_add, show (-(e + k)).toNat + k = (-e).toNat by omega]

theorem toDouble_cases (negative : Bool) (d : Decimal) :
    (∃ index, d.toDouble negative = .finite negative index) ∨
      d.toDouble negative = .infinite negative := by
  rw [toDouble, Double.nearest]
  generalize Double.nearestIndex _ _ = index
  by_cases h : index < magnitudeCount
  · exact .inl ⟨_, Double.ofIndex_of_lt negative h⟩
  · exact .inr (Double.ofIndex_of_not_lt negative h)

end Decimal

namespace Double

theorem readsAs_iff {d : Decimal} {index : Nat} : readsAs d index = true ↔
    reaches d.fraction.1 d.fraction.2 index = true ∧
      reaches d.fraction.1 d.fraction.2 (index + 1) = false := by
  simp [readsAs]

/-- A decimal fraction is rounded to the magnitude that it reads as. -/
theorem toDouble_of_readsAs {d : Decimal} {index : Fin magnitudeCount} (negative : Bool)
    (h : readsAs d index = true) : d.toDouble negative = .finite negative index := by
  obtain ⟨hreaches, hends⟩ := readsAs_iff.mp h
  have hlt : index.val < Nat.pow 2 63 := Nat.lt_trans index.isLt (by decide)
  rw [Decimal.toDouble, nearest, nearestIndex_eq d.fraction_pos hlt hreaches hends,
    ofIndex_of_lt negative index.isLt]

/-- Zeros at the end of the digits of a decimal fraction may go into its exponent. -/
theorem readsAs_scale (n k : Nat) (e : Int) (index : Nat) :
    readsAs ⟨n * Nat.pow 10 k, e⟩ index = readsAs ⟨n, e + k⟩ index := by
  obtain ⟨c, hc, hnum, hden⟩ := Decimal.fraction_scale n k e
  simp only [readsAs, hnum, hden, reaches_scale hc]

end Double
end ExprLang
