import ExprLang.Proofs.Number.Range
import Mathlib.Algebra.Order.Field.Rat
import Mathlib.Algebra.Order.Ring.Abs
import Mathlib.Data.Nat.Cast.Field
import Mathlib.Tactic.FieldSimp
import Mathlib.Tactic.Linarith
import Mathlib.Tactic.NormNum
import Mathlib.Tactic.Ring

/-! Fractions are rounded to the nearest magnitude. Of two that are equally near, the one with the
even significand is taken, and what would round past the last magnitude is infinite. -/
namespace ExprLang

namespace Double

/-- The binary digits of a magnitude as a whole number. -/
def significand (index : Nat) : Nat :=
  if index < fractionCount then index else fractionCount + index % fractionCount

/-- The power of two that goes with the significand. -/
def binaryExponent (index : Nat) : Int := (index / fractionCount - 1 : Nat) - (unitPlaces : Int)

/-- A magnitude as a rational number. -/
def magnitude (index : Nat) : ℚ := significand index * 2 ^ binaryExponent index

/-- No magnitude is nearer to a number than this one, and if another one is as near, the significand
of this one is even. -/
structure Nearest (x : ℚ) (index : Fin magnitudeCount) : Prop where
  closest : ∀ other : Fin magnitudeCount, |x - magnitude index| ≤ |x - magnitude other|
  even : ∀ other : Fin magnitudeCount, other ≠ index →
    |x - magnitude index| = |x - magnitude other| → Even (significand index)

private theorem even_significand_iff (index : Nat) : Even (significand index) ↔ index % 2 = 0 := by
  have hcount := fractionCount_eq
  rw [Nat.even_iff, significand, hcount]
  split <;> omega

private theorem units_eq (index : Nat) :
    units index = significand index * Nat.pow 2 (index / fractionCount - 1) := by
  by_cases h : index < fractionCount
  · have hzero : index / fractionCount - 1 = 0 := by rw [Nat.div_eq_of_lt h]
    rw [units_of_lt h, significand, if_pos h, hzero, Nat.pow_eq, Nat.pow_zero, Nat.mul_one]
  · rw [units_of_le (Nat.not_lt.mp h), significand, if_neg h]

private theorem two_pow_cast (k : Nat) : ((Nat.pow 2 k : Nat) : ℚ) = 2 ^ k := by
  rw [Nat.pow_eq, Nat.cast_pow, Nat.cast_ofNat]

private theorem unitsInOne_cast : (unitsInOne : ℚ) = 2 ^ unitPlaces := by
  unfold unitsInOne
  exact two_pow_cast unitPlaces

private theorem unitsInOne_pos : (0 : ℚ) < unitsInOne := by
  rw [unitsInOne_cast]
  exact pow_pos two_pos _

private theorem magnitude_eq (index : Nat) : magnitude index = units index / unitsInOne := by
  rw [magnitude, binaryExponent, zpow_sub₀ two_ne_zero, zpow_natCast, zpow_natCast, units_eq,
    unitsInOne_cast, Nat.cast_mul, two_pow_cast, mul_div_assoc]

private theorem magnitude_lt_succ (index : Nat) : magnitude index < magnitude (index + 1) := by
  rw [magnitude_eq, magnitude_eq]
  exact div_lt_div_of_pos_right (Nat.cast_lt.mpr (units_lt_succ index)) unitsInOne_pos

private theorem magnitude_lt {m n : Nat} (h : m < n) : magnitude m < magnitude n :=
  strictMono_nat_of_lt_succ magnitude_lt_succ h

/-- The number in the middle between a magnitude and the next one. -/
def middle (index : Nat) : ℚ := (magnitude index + magnitude (index + 1)) / 2

/-- A number rounds past a magnitude: it lies above the middle to the next one, or on it and the
next one is even. -/
def Passes (x : ℚ) (index : Nat) : Prop :=
  middle index < x ∨ middle index = x ∧ (index + 1) % 2 = 0

private theorem reaches_iff_passes {num den : Nat} (hden : 0 < den) (below : Nat) :
    reaches num den (below + 1) = true ↔ Passes (num / den) below := by
  have hpos : (0 : ℚ) < den * (2 * unitsInOne) :=
    mul_pos (Nat.cast_pos.mpr hden) (mul_pos two_pos unitsInOne_pos)
  have hunits := unitsInOne_pos.ne'
  have hden' : (den : ℚ) ≠ 0 := Nat.cast_ne_zero.mpr (Nat.ne_of_gt hden)
  have hmiddle : middle below =
      (den * (units below + units (below + 1)) : Nat) / (den * (2 * unitsInOne)) := by
    rw [middle, magnitude_eq, magnitude_eq]
    push_cast
    field_simp
  have hvalue : (num / den : ℚ) = (2 * num * unitsInOne : Nat) / (den * (2 * unitsInOne)) := by
    push_cast
    field_simp
  rw [reaches_succ_iff, Passes, hmiddle, hvalue, div_lt_div_iff_of_pos_right hpos,
    div_left_inj' hpos.ne', Nat.cast_lt, Nat.cast_inj]

private theorem abs_sub_le_iff_middle_le {x low high : ℚ} (h : low < high) :
    |x - high| ≤ |x - low| ↔ (low + high) / 2 ≤ x := by
  have hsquares : (x - low) ^ 2 - (x - high) ^ 2 = 2 * (high - low) * (x - (low + high) / 2) := by
    ring
  rw [← sq_le_sq, ← sub_nonneg, hsquares, mul_nonneg_iff_of_pos_left (by linarith), sub_nonneg]

private theorem abs_sub_le_iff_le_middle {x low high : ℚ} (h : low < high) :
    |x - low| ≤ |x - high| ↔ x ≤ (low + high) / 2 := by
  have hsquares : (x - high) ^ 2 - (x - low) ^ 2 = 2 * (high - low) * ((low + high) / 2 - x) := by
    ring
  rw [← sq_le_sq, ← sub_nonneg, hsquares, mul_nonneg_iff_of_pos_left (by linarith), sub_nonneg]

private theorem middle_last : middle (magnitudeCount - 1) = 2 ^ 1024 - 2 ^ 970 := by
  have hlast : magnitude (magnitudeCount - 1) = (2 ^ 53 - 1) * 2 ^ 971 := by
    have hs : significand (magnitudeCount - 1) = 2 ^ 53 - 1 := by decide
    have he : binaryExponent (magnitudeCount - 1) = (971 : Nat) := by decide
    rw [magnitude, hs, he, zpow_natCast]
    norm_num
  have hpast : magnitude (magnitudeCount - 1 + 1) = 2 ^ 52 * 2 ^ 972 := by
    have hs : significand (magnitudeCount - 1 + 1) = 2 ^ 52 := by decide
    have he : binaryExponent (magnitudeCount - 1 + 1) = (972 : Nat) := by decide
    rw [magnitude, hs, he, zpow_natCast]
    norm_num
  rw [middle, hlast, hpast, show 971 = 1 + 970 from rfl, show 972 = 2 + 970 from rfl,
    show 1024 = 54 + 970 from rfl, pow_add, pow_add, pow_add]
  generalize (2 : ℚ) ^ 970 = p
  ring

private theorem passes_last_iff {x : ℚ} :
    Passes x (magnitudeCount - 1) ↔ 2 ^ 1024 - 2 ^ 970 ≤ x := by
  have heven : (magnitudeCount - 1 + 1) % 2 = 0 := by decide
  rw [Passes, middle_last, le_iff_lt_or_eq]
  simp only [heven, and_true]

variable {x : ℚ} {index : Fin magnitudeCount}

private theorem Nearest.passes (h : Nearest x index) {below : Nat}
    (hbelow : index.val = below + 1) :
    Passes x below := by
  have hcount : below < magnitudeCount := by have := index.isLt; omega
  have hlt := magnitude_lt_succ below
  have hclosest := h.closest ⟨below, hcount⟩
  rw [hbelow, abs_sub_le_iff_middle_le hlt] at hclosest
  rcases hclosest.lt_or_eq with hmiddle | hmiddle
  · exact .inl hmiddle
  · have heven := h.even ⟨below, hcount⟩ (by simp [Fin.ext_iff, hbelow])
      (le_antisymm (h.closest _) (by
        rw [hbelow, abs_sub_le_iff_le_middle hlt]
        exact hmiddle.ge))
    rw [even_significand_iff, hbelow] at heven
    exact .inr ⟨hmiddle, heven⟩

private theorem Nearest.not_passes (h : Nearest x index) (hlimit : x < 2 ^ 1024 - 2 ^ 970) :
    ¬ Passes x index := by
  intro hpasses
  have hnext : index.val + 1 < magnitudeCount := by
    have hlt := index.isLt
    by_contra hlast
    have hindex : index.val = magnitudeCount - 1 := by omega
    rw [hindex, passes_last_iff] at hpasses
    exact absurd hlimit hpasses.not_gt
  have hlt := magnitude_lt_succ index
  have hclosest := (abs_sub_le_iff_le_middle hlt).mp (h.closest ⟨index + 1, hnext⟩)
  rcases hpasses with hmiddle | ⟨hmiddle, heven⟩
  · exact absurd hmiddle hclosest.not_gt
  · have heven' := h.even ⟨index + 1, hnext⟩ (by simp [Fin.ext_iff])
      (le_antisymm (h.closest _) ((abs_sub_le_iff_middle_le hlt).mpr hmiddle.le))
    rw [even_significand_iff] at heven'
    omega

private theorem closest_of_lt (hbelow : ∀ below, index.val = below + 1 → Passes x below)
    {other : Nat} (hother : other < index) :
    |x - magnitude index| ≤ |x - magnitude other| ∧
      (|x - magnitude index| = |x - magnitude other| → Even (significand index)) := by
  obtain ⟨below, hindex⟩ := Nat.exists_eq_succ_of_ne_zero (Nat.ne_of_gt (Nat.zero_lt_of_lt hother))
  have hlt := magnitude_lt hother
  have hother' : magnitude other ≤ magnitude below :=
    (strictMono_nat_of_lt_succ magnitude_lt_succ).monotone (by omega)
  have hmiddle : (magnitude other + magnitude index) / 2 ≤ middle below := by
    rw [middle, hindex]
    linarith
  rcases hbelow below hindex with hpasses | ⟨hpasses, heven⟩
  · refine ⟨(abs_sub_le_iff_middle_le hlt).mpr (hmiddle.trans hpasses.le), fun heq => ?_⟩
    have hle := (abs_sub_le_iff_le_middle hlt).mp heq.ge
    linarith
  · refine ⟨(abs_sub_le_iff_middle_le hlt).mpr (hmiddle.trans hpasses.le), fun _ => ?_⟩
    rw [even_significand_iff, hindex]
    exact heven

private theorem closest_of_gt (hstop : ¬ Passes x index) {other : Nat} (hother : index < other) :
    |x - magnitude index| ≤ |x - magnitude other| ∧
      (|x - magnitude index| = |x - magnitude other| → Even (significand index)) := by
  have hlt := magnitude_lt hother
  have hother' : magnitude (index + 1) ≤ magnitude other :=
    (strictMono_nat_of_lt_succ magnitude_lt_succ).monotone hother
  have hmiddle : middle index ≤ (magnitude index + magnitude other) / 2 := by
    rw [middle]
    linarith
  rw [Passes, not_or, not_lt, not_and] at hstop
  obtain ⟨hle, hodd⟩ := hstop
  refine ⟨(abs_sub_le_iff_le_middle hlt).mpr (hle.trans hmiddle), fun heq => ?_⟩
  have hge := (abs_sub_le_iff_middle_le hlt).mp heq.ge
  have hnext := hodd (le_antisymm (hmiddle.trans hge) hle)
  rw [even_significand_iff]
  omega

/-- Below the limit, the nearest magnitude is the one up to which a number passes all others. -/
theorem nearest_iff (hlimit : x < 2 ^ 1024 - 2 ^ 970) : Nearest x index ↔
    (∀ below, index.val = below + 1 → Passes x below) ∧ ¬ Passes x index := by
  constructor
  · intro h
    exact ⟨fun _ hbelow => h.passes hbelow, h.not_passes hlimit⟩
  · rintro ⟨hbelow, hstop⟩
    constructor
    · intro other
      rcases Nat.lt_trichotomy other index with hother | hother | hother
      · exact (closest_of_lt hbelow hother).1
      · rw [hother]
      · exact (closest_of_gt hstop hother).1
    · intro other hne heq
      rcases Nat.lt_trichotomy other index with hother | hother | hother
      · exact (closest_of_lt hbelow hother).2 heq
      · exact absurd (Fin.ext hother) hne
      · exact (closest_of_gt hstop hother).2 heq

private theorem nearest_iff_reaches {num den : Nat} (hden : 0 < den)
    (hlimit : (num / den : ℚ) < 2 ^ 1024 - 2 ^ 970) : Nearest (num / den) index ↔
      reaches num den index = true ∧ reaches num den (index + 1) = false := by
  rw [nearest_iff hlimit, ← reaches_iff_passes hden, Bool.not_eq_true]
  refine and_congr_left fun _ => ?_
  obtain ⟨index, hindex⟩ := index
  cases index with
  | zero => simp [reaches]
  | succ below => simp [← reaches_iff_passes hden]

private theorem nearestIndex_lt_iff {num den : Nat} (hden : 0 < den) :
    nearestIndex num den < magnitudeCount ↔ (num / den : ℚ) < 2 ^ 1024 - 2 ^ 970 := by
  rw [← not_le, ← not_le, not_iff_not, ← passes_last_iff, ← reaches_iff_passes hden]
  exact ⟨fun h => reaches_of_le hden h (reaches_nearestIndex num den),
    le_nearestIndex hden (by decide)⟩

/-- The index that is found is the only one of a nearest magnitude. -/
theorem nearest_iff_eq_nearestIndex {num den : Nat} (hden : 0 < den)
    (hlimit : (num / den : ℚ) < 2 ^ 1024 - 2 ^ 970) :
    Nearest (num / den) index ↔ index.val = nearestIndex num den := by
  have hsmall {n : Nat} (h : n < magnitudeCount) : n + 1 < Nat.pow 2 63 :=
    Nat.lt_of_le_of_lt h (by decide)
  rw [nearest_iff_reaches hden hlimit]
  constructor
  · rintro ⟨hreaches, hends⟩
    exact (nearestIndex_eq hden (Nat.lt_of_succ_lt (hsmall index.isLt)) hreaches hends).symm
  · intro hindex
    refine ⟨hindex ▸ reaches_nearestIndex num den, Bool.eq_false_iff.mpr fun hnext => ?_⟩
    have hle := le_nearestIndex hden (hsmall index.isLt) hnext
    omega

end Double

namespace Decimal

/-- A decimal fraction as a rational number. -/
def value (d : Decimal) : ℚ := d.digits * 10 ^ d.exponent

private theorem value_eq (d : Decimal) : d.value = d.fraction.1 / d.fraction.2 := by
  rw [value, fraction]
  split
  · rename_i hexponent
    obtain ⟨n, hn⟩ := Int.eq_ofNat_of_zero_le hexponent
    simp [hn]
  · rename_i hexponent
    obtain ⟨n, hn⟩ := Int.exists_eq_neg_ofNat (Int.le_of_lt (Int.not_le.mp hexponent))
    simp [hn, div_eq_mul_inv]

/-- A decimal fraction below the limit is rounded to the magnitude nearest to it, and to no
other. -/
theorem toDouble_nearest (negative : Bool) {d : Decimal} (hlimit : d.value < 2 ^ 1024 - 2 ^ 970) :
    ∃ index, d.toDouble negative = .finite negative index ∧
      ∀ other, Double.Nearest d.value other ↔ other = index := by
  rw [value_eq] at hlimit ⊢
  have hindex := (Double.nearestIndex_lt_iff d.fraction_pos).mpr hlimit
  refine ⟨⟨_, hindex⟩, ?_, fun other => ?_⟩
  · rw [toDouble, Double.nearest, Double.ofIndex_of_lt negative hindex]
  · rw [Double.nearest_iff_eq_nearestIndex d.fraction_pos hlimit, Fin.ext_iff]

theorem toDouble_infinite (negative : Bool) {d : Decimal} (hlimit : 2 ^ 1024 - 2 ^ 970 ≤ d.value) :
    d.toDouble negative = .infinite negative := by
  rw [value_eq, ← not_lt, ← Double.nearestIndex_lt_iff d.fraction_pos] at hlimit
  rw [toDouble, Double.nearest, Double.ofIndex_of_not_lt negative hlimit]

end Decimal
end ExprLang
