import ResourceApi.Proofs.Double.Rounding

/-!
# Reading decimals

A number has a significand and an exponent (`Double.size`), and the decimals that are near it
(`Double.IsNear`) lie around it.

**Theorem (`Double.ofDecimal_eq`).** A decimal that is near a finite number is read as the number,
bit by bit. The decimals that are not looked at, since they are too large or too small for any
number, are near none (`Double.size_bounds`).
-/

namespace ResourceApi.Double

variable {d : Double} {digits : Nat} {exponent : Int}

/-! ## The parts of a number -/

/-- The absolute value of a number. -/
def size (d : Double) : ℚ := d.significand * 2 ^ d.exponent

/-- The number that a fraction is rounded to. -/
def IsNear (d : Double) (x : ℚ) : Prop := Near d.significand d.exponent x

/-- The parts of a number make up its bits, the sign aside. A number has all its digits, unless its
exponent is the smallest one. -/
theorem parts_spec (d : Double) : -1074 ≤ d.exponent ∧ d.significand < 2 ^ 53 ∧
    (d.exponent = -1074 ∨ 2 ^ 52 ≤ d.significand) ∧
    d.magnitude = (d.exponent + 1074).toNat * leadingBit + d.significand := by
  unfold exponent significand leadingBit
  split <;> omega

theorem exponent_ge (d : Double) : -1074 ≤ d.exponent := d.parts_spec.1

theorem significand_lt (d : Double) : d.significand < 2 ^ 53 := d.parts_spec.2.1

theorem exponent_eq_or (d : Double) : d.exponent = -1074 ∨ 2 ^ 52 ≤ d.significand :=
  d.parts_spec.2.2.1

theorem magnitude_eq (d : Double) :
    d.magnitude = (d.exponent + 1074).toNat * leadingBit + d.significand :=
  d.parts_spec.2.2.2

theorem exponent_le (h : d.isFinite = true) : d.exponent ≤ 971 := by
  have hlt : d.magnitude < infinity := of_decide_eq_true h
  rw [magnitude_eq] at hlt
  unfold infinity leadingBit at hlt
  have hdigits := d.exponent_eq_or
  omega

theorem significand_pos (h : d.isZero = false) : 0 < d.significand := by
  have hmagnitude : d.magnitude ≠ 0 := beq_eq_false_iff_ne.1 h
  rw [magnitude_eq] at hmagnitude
  by_contra hzero
  rw [Nat.eq_zero_of_not_pos hzero, d.exponent_eq_or.resolve_right (by omega)] at hmagnitude
  exact hmagnitude rfl

theorem ofMagnitude_self (d : Double) : ofMagnitude d.isNegative d.magnitude = d := by
  have hbits : (if d.isNegative then d.magnitude + signBit else d.magnitude) = d.bits.toNat := by
    have hlt := d.bits.toNat_lt
    unfold isNegative magnitude signBit
    simp only [decide_eq_true_eq]
    split <;> omega
  unfold ofMagnitude
  rw [hbits, UInt64.ofNat_toNat]

theorem ratio_spec (d : Double) :
    0 < d.ratio.2 ∧ (d.ratio.1 : ℚ) / d.ratio.2 = d.size := by
  have h := shifted_spec d.significand Nat.one_pos (-d.exponent)
  rwa [Nat.cast_one, div_one, neg_neg] at h

/-! ## Powers of ten -/

theorem powerOfTen_spec (e : Int) : 0 < (powerOfTen e).1 ∧ 0 < (powerOfTen e).2 ∧
    ((powerOfTen e).1 : ℚ) / (powerOfTen e).2 = 10 ^ e := by
  unfold powerOfTen
  split
  · rename_i he
    obtain ⟨k, rfl⟩ := Int.eq_ofNat_of_zero_le he
    refine ⟨Nat.pow_pos (by decide), Nat.one_pos, ?_⟩
    simp
  · rename_i he
    obtain ⟨k, hk⟩ := Int.eq_ofNat_of_zero_le (show 0 ≤ -e by omega)
    obtain rfl : e = -k := by omega
    refine ⟨Nat.one_pos, Nat.pow_pos (by decide), ?_⟩
    simp

/-- A number is below the power of ten that counts its digits, and not below the one before. -/
theorem length_toDigits_bounds (h : 0 < digits) :
    (10 : ℚ) ^ (((Nat.toDigits 10 digits).length : Int) - 1) ≤ digits ∧
      (digits : ℚ) < 10 ^ ((Nat.toDigits 10 digits).length : Int) := by
  have hlength : 0 < (Nat.toDigits 10 digits).length := List.length_pos_iff.2 Nat.toDigits_ne_nil
  generalize hL : (Nat.toDigits 10 digits).length = length at *
  have hlt : digits < 10 ^ length :=
    (Nat.length_toDigits_le_iff (by decide) hlength).1 hL.le
  have hge : 10 ^ (length - 1) ≤ digits := by
    rcases Nat.eq_zero_or_pos (length - 1) with hzero | hpos
    · rw [hzero]
      exact h
    · refine Nat.not_lt.1 fun hlt => ?_
      have := (Nat.length_toDigits_le_iff (by decide) hpos).2 hlt
      omega
  constructor
  · rw [show (length : Int) - 1 = (length - 1 : Nat) by omega, zpow_natCast]
    exact_mod_cast hge
  · rw [zpow_natCast]
    exact_mod_cast hlt

/-! ## Decimals near a number -/

/-- A unit of the smallest number is much more than the decimals that count as too small. -/
theorem ten_zpow_lt : (10 : ℚ) ^ (-401 : Int) < 1 / 2 * 2 ^ (-1074 : Int) := by
  have hpow : (2 : ℚ) ^ 1075 < 10 ^ 401 := by
    have h : 2 ^ 1075 < 10 ^ 401 := by decide +kernel
    exact_mod_cast h
  have hhalf : (1 : ℚ) / 2 * 2 ^ (-1074 : Int) = (2 ^ 1075)⁻¹ := by
    rw [zpow_neg, pow_succ, mul_inv, mul_comm, one_div]
    rfl
  rw [hhalf, zpow_neg]
  exact inv_strictAnti₀ (by positivity) hpow

/-- The greatest numbers are much less than the decimals that count as too large. -/
theorem two_zpow_lt : (2 : ℚ) ^ 53 * 2 ^ (971 : Int) < 10 ^ (400 : Int) := by
  have h : 2 ^ 53 * 2 ^ 971 < 10 ^ 400 := by decide +kernel
  exact_mod_cast h

/-- A decimal near a number is not too large or too small to be looked at. -/
theorem size_bounds (hfinite : d.isFinite = true) (hzero : d.isZero = false) (hdigits : 0 < digits)
    (hnear : d.IsNear (digits * 10 ^ exponent)) :
    -400 ≤ ((Nat.toDigits 10 digits).length : Int) + exponent ∧
      ((Nat.toDigits 10 digits).length : Int) + exponent ≤ 400 := by
  obtain ⟨hge, hlt⟩ := length_toDigits_bounds hdigits
  have hlow := hnear.le
  have hhigh := hnear.high
  generalize ((Nat.toDigits 10 digits).length : Int) = length at *
  have he : (0 : ℚ) < 2 ^ d.exponent := by positivity
  have hten : (10 : ℚ) ≠ 0 := by norm_num
  rw [zpow_neg, ← div_eq_mul_inv, le_div_iff₀ he] at hlow
  rw [zpow_neg, ← div_eq_mul_inv, div_le_iff₀ he] at hhigh
  constructor
  · by_contra hsmall
    have hone : (1 : ℚ) ≤ d.significand := by exact_mod_cast significand_pos hzero
    have hleast : (2 : ℚ) ^ (-1074 : Int) ≤ 2 ^ d.exponent :=
      zpow_le_zpow_right₀ one_le_two d.exponent_ge
    refine absurd ?_ (lt_irrefl ((10 : ℚ) ^ (-401 : Int)))
    calc (10 : ℚ) ^ (-401 : Int)
      _ < 1 / 2 * 2 ^ (-1074 : Int) := ten_zpow_lt
      _ ≤ (d.significand - 1 / 2) * 2 ^ d.exponent :=
        mul_le_mul (by linarith) hleast (by positivity) (by linarith)
      _ ≤ digits * 10 ^ exponent := hlow
      _ ≤ 10 ^ length * 10 ^ exponent := by gcongr
      _ = 10 ^ (length + exponent) := (zpow_add₀ hten _ _).symm
      _ ≤ 10 ^ (-401 : Int) := zpow_le_zpow_right₀ (by norm_num) (by omega)
  · by_contra hlarge
    have hmost : (d.significand : ℚ) + 1 / 2 ≤ 2 ^ 53 := by
      have : ((d.significand + 1 : Nat) : ℚ) ≤ (2 ^ 53 : Nat) := by
        exact_mod_cast d.significand_lt
      push_cast at this
      linarith
    have hgreatest : (2 : ℚ) ^ d.exponent ≤ 2 ^ (971 : Int) :=
      zpow_le_zpow_right₀ one_le_two (exponent_le hfinite)
    refine absurd ?_ (lt_irrefl ((10 : ℚ) ^ (400 : Int)))
    calc (10 : ℚ) ^ (400 : Int)
      _ ≤ 10 ^ (length - 1 + exponent) := zpow_le_zpow_right₀ (by norm_num) (by omega)
      _ = 10 ^ (length - 1) * 10 ^ exponent := zpow_add₀ hten _ _
      _ ≤ digits * 10 ^ exponent := by gcongr
      _ ≤ (d.significand + 1 / 2) * 2 ^ d.exponent := hhigh
      _ ≤ 2 ^ 53 * 2 ^ (971 : Int) := mul_le_mul hmost hgreatest he.le (by norm_num)
      _ < 10 ^ (400 : Int) := two_zpow_lt

/-- **A decimal near a number is read as the number.** -/
theorem ofDecimal_eq (hfinite : d.isFinite = true) (hzero : d.isZero = false) (hdigits : 0 < digits)
    (hnear : d.IsNear (digits * 10 ^ exponent)) :
    ofDecimal d.isNegative digits exponent = d := by
  obtain ⟨hsmall, hlarge⟩ := size_bounds hfinite hzero hdigits hnear
  obtain ⟨hnum, hden, hpower⟩ := powerOfTen_spec exponent
  have hmagnitude : roundedMagnitude (digits * (powerOfTen exponent).1) (powerOfTen exponent).2 =
      d.magnitude := by
    rw [magnitude_eq]
    refine roundedMagnitude_eq (Nat.mul_pos hdigits hnum) hden d.significand_lt d.exponent_ge
      d.exponent_eq_or ?_ ?_
    · rw [Nat.cast_mul, mul_div_assoc, hpower]
      exact hnear
    · rw [← magnitude_eq]
      exact of_decide_eq_true hfinite
  unfold ofDecimal
  dsimp only
  rw [if_neg (by omega), if_neg (by omega), ofRatio, hmagnitude, ofMagnitude_self]

theorem ofDecimal_zero (negative : Bool) (exponent : Int) :
    ofDecimal negative 0 exponent = ofMagnitude negative 0 := by
  unfold ofDecimal
  exact if_pos (Or.inl rfl)

end ResourceApi.Double
