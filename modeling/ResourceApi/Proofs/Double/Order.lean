import Mathlib.Algebra.Order.Field.Rat
import Mathlib.Algebra.Order.Ring.Cast
import Mathlib.Order.Compare
import Mathlib.Order.Monotone.Basic
import Mathlib.Tactic.Positivity
import ResourceApi.Double.Basic

/-!
# The order of floating point numbers

`Double.value` is the rational number that a floating point number denotes; the infinite ones and
what is no number count as if their exponents went on.

**Theorems (`Double.compare_eq`, `Double.compareInt_eq`).** Comparing the bits of two numbers, or an
integer with the fraction of a number, is comparing values.

In units of `2 ^ -1075` every absolute value is a natural number, `Double.units`. It grows with the
magnitude, from one exponent to the next as well (`Double.units_strictMono`).
-/

namespace ResourceApi

/-- Numbers compare as others do that lie in the same order. -/
theorem compare_congr {α β : Type} [LinearOrder α] [LinearOrder β] {a b : α} {x y : β}
    (hlt : a < b ↔ x < y) (hgt : b < a ↔ y < x) : Ord.compare a b = Ord.compare x y := by
  rcases lt_trichotomy a b with h | h | h
  · rw [compare_lt_iff_lt.2 h, compare_lt_iff_lt.2 (hlt.1 h)]
  · have hx : x = y := by
      rcases lt_trichotomy x y with hx | hx | hx
      · exact absurd (hlt.2 hx) (by simp [h])
      · exact hx
      · exact absurd (hgt.2 hx) (by simp [h])
    rw [compare_eq_iff_eq.2 h, compare_eq_iff_eq.2 hx]
  · rw [compare_gt_iff_gt.2 h, compare_gt_iff_gt.2 (hgt.1 h)]

namespace Double

/-! ## Magnitudes -/

/-- The number of units in one. -/
def unitsInOne : Nat := 2 ^ 1075

theorem unitsInOne_pos : 0 < unitsInOne := by
  unfold unitsInOne
  positivity

/-- The absolute value of the number of a magnitude, in units of `2 ^ -1075`. -/
def units (magnitude : Nat) : Nat :=
  (if magnitude < leadingBit then magnitude else magnitude % leadingBit + leadingBit)
    * 2 ^ max (magnitude / leadingBit) 1

theorem units_lt_succ (m : Nat) : units m < units (m + 1) := by
  unfold units leadingBit
  by_cases hsmall : m + 1 < 0x10000000000000
  · -- below the first exponent, the significand is the magnitude
    rw [if_pos (by omega), if_pos hsmall, Nat.div_eq_of_lt hsmall, Nat.div_eq_of_lt (by omega)]
    exact Nat.mul_lt_mul_of_pos_right (by omega) (Nat.two_pow_pos _)
  by_cases hfirst : m + 1 = 0x10000000000000
  · rw [if_pos (by omega), if_neg (by omega), hfirst, Nat.div_eq_of_lt (by omega), Nat.mod_self,
      Nat.div_self (by omega)]
    show m * 2 ^ 1 < (0 + 0x10000000000000) * 2 ^ 1
    omega
  rw [if_neg (by omega), if_neg (by omega)]
  by_cases hlast : m % 0x10000000000000 + 1 = 0x10000000000000
  · -- the next number has the next exponent
    have hmod : (m + 1) % 0x10000000000000 = 0 := by omega
    have hdiv : (m + 1) / 0x10000000000000 = m / 0x10000000000000 + 1 := by omega
    have hmax : max (m / 0x10000000000000) 1 = m / 0x10000000000000 := by omega
    have hmax' : max (m / 0x10000000000000 + 1) 1 = m / 0x10000000000000 + 1 := by omega
    rw [hmod, hdiv, hmax, hmax', Nat.pow_succ, Nat.mul_comm (2 ^ _) 2, ← Nat.mul_assoc]
    exact Nat.mul_lt_mul_of_pos_right (by omega) (Nat.two_pow_pos _)
  · have hmod : (m + 1) % 0x10000000000000 = m % 0x10000000000000 + 1 := by omega
    have hdiv : (m + 1) / 0x10000000000000 = m / 0x10000000000000 := by omega
    rw [hmod, hdiv]
    exact Nat.mul_lt_mul_of_pos_right (by omega) (Nat.two_pow_pos _)

/-- **A larger magnitude is a larger value.** -/
theorem units_strictMono : StrictMono units := strictMono_nat_of_lt_succ units_lt_succ

theorem units_zero : units 0 = 0 := by simp [units, leadingBit]

/-! ## Values -/

/-- The rational number that a number denotes. -/
def value (d : Double) : ℚ := d.signedRatio.1 / d.signedRatio.2

theorem ratio_units (d : Double) :
    0 < d.ratio.2 ∧ d.ratio.1 * unitsInOne = units d.magnitude * d.ratio.2 := by
  have hsig : units d.magnitude =
      d.significand * 2 ^ max (d.magnitude / leadingBit) 1 := rfl
  have hexp : d.exponent = (max (d.magnitude / leadingBit) 1 : Nat) - 1075 := by
    unfold exponent
    omega
  rw [hsig]
  unfold ratio shifted
  generalize d.significand = s
  generalize max (d.magnitude / leadingBit) 1 = e at hexp
  rw [hexp]
  by_cases he : e ≤ 1075
  · rw [if_pos (by omega)]
    have hto : (-((e : Int) - 1075)).toNat = 1075 - e := by omega
    have hsum : 1075 = e + (1075 - e) := by omega
    rw [hto]
    refine ⟨by simp, ?_⟩
    show s * 2 ^ 1075 = s * 2 ^ e * (1 * 2 ^ (1075 - e))
    rw [Nat.one_mul, Nat.mul_assoc, ← Nat.pow_add, ← hsum]
  · rw [if_neg (by omega)]
    have hto : (- -((e : Int) - 1075)).toNat = e - 1075 := by omega
    have hsum : e = (e - 1075) + 1075 := by omega
    rw [hto]
    refine ⟨Nat.one_pos, ?_⟩
    show s * 2 ^ (e - 1075) * 2 ^ 1075 = s * 2 ^ e * 1
    rw [Nat.mul_one, Nat.mul_assoc, ← Nat.pow_add, ← hsum]

/-- The value with its sign, in units of `2 ^ -1075`. -/
def signedUnits (d : Double) : Int :=
  if d.isNegative then -(units d.magnitude : Int) else units d.magnitude

theorem signedRatio_pos (d : Double) : 0 < d.signedRatio.2 := d.ratio_units.1

theorem signedRatio_units (d : Double) :
    d.signedRatio.1 * unitsInOne = d.signedUnits * d.signedRatio.2 := by
  have h : (d.ratio.1 : Int) * unitsInOne = units d.magnitude * d.ratio.2 := by
    exact_mod_cast d.ratio_units.2
  show (if d.isNegative then -(d.ratio.1 : Int) else d.ratio.1) * unitsInOne = _ * (d.ratio.2 : Int)
  unfold signedUnits
  split
  · rw [neg_mul, neg_mul, h]
  · exact h

theorem value_mul (d : Double) : d.value * unitsInOne = d.signedUnits := by
  have hpos : (d.signedRatio.2 : ℚ) ≠ 0 := by exact_mod_cast d.signedRatio_pos.ne'
  have h : (d.signedRatio.1 : ℚ) * unitsInOne = d.signedUnits * d.signedRatio.2 := by
    exact_mod_cast d.signedRatio_units
  rw [value, div_mul_eq_mul_div, h, mul_div_assoc, div_self hpos, mul_one]

theorem value_lt_iff (a b : Double) : a.value < b.value ↔ a.signedUnits < b.signedUnits := by
  have hpos : (0 : ℚ) < unitsInOne := Nat.cast_pos.2 unitsInOne_pos
  rw [← mul_lt_mul_iff_of_pos_right hpos, value_mul, value_mul, Int.cast_lt]

/-- The rank of a number grows with its value. -/
theorem rank_lt_iff (a b : Double) : a.rank < b.rank ↔ a.value < b.value := by
  have hab := units_strictMono.lt_iff_lt (a := a.magnitude) (b := b.magnitude)
  have hba := units_strictMono.lt_iff_lt (a := b.magnitude) (b := a.magnitude)
  have ha := units_strictMono.lt_iff_lt (a := 0) (b := a.magnitude)
  have hb := units_strictMono.lt_iff_lt (a := 0) (b := b.magnitude)
  rw [units_zero] at ha hb
  rw [value_lt_iff]
  unfold rank signedUnits
  cases a.isNegative <;> cases b.isNegative <;>
    simp only [if_true, if_false, Bool.false_eq_true] <;>
    omega

/-! ## Comparisons -/

/-- **The order of numbers is that of their values.** -/
theorem compare_eq (a b : Double) : a.compare b = Ord.compare a.value b.value :=
  compare_congr (rank_lt_iff a b) (rank_lt_iff b a)

/-- **The order of an integer and a number is that of their values.** -/
theorem compareInt_eq (i : Int) (d : Double) : compareInt i d = Ord.compare (i : ℚ) d.value := by
  have hpos : (0 : ℚ) < d.signedRatio.2 := by exact_mod_cast d.signedRatio_pos
  refine compare_congr ?_ ?_
  · rw [value, lt_div_iff₀ hpos]
    exact_mod_cast Iff.rfl
  · rw [value, div_lt_iff₀ hpos]
    exact_mod_cast Iff.rfl

/-- A number that denotes an integer is compared as that integer. -/
theorem compareInt_of_toInt? {d : Double} {i : Int} (h : d.toInt? = some i) :
    compareInt i d = .eq := by
  unfold toInt? at h
  unfold compareInt signedRatio
  generalize d.ratio = q at h ⊢
  obtain ⟨num, den⟩ := q
  dsimp only at h ⊢
  rw [Option.ite_none_right_eq_some, Bool.and_eq_true, beq_iff_eq] at h
  obtain ⟨⟨-, hmod⟩, hi⟩ := h
  obtain rfl := Option.some.inj hi
  have hnum : num / den * den = num := Nat.div_mul_cancel (Nat.dvd_of_mod_eq_zero hmod)
  rw [compare_eq_iff_eq]
  split
  · rw [Int.neg_mul, ← Int.natCast_mul, hnum]
  · rw [← Int.natCast_mul, hnum]

end Double

end ResourceApi
