import ResourceApi.Proofs.Double.Order
import ResourceApi.Proofs.Double.Shortest
import ResourceApi.Proofs.Sql.Values

/-!
# Rounding keeps the order

**Theorem (`Double.roundedMagnitude_mono`).** A larger fraction is not rounded to a smaller number.
At one scale this is so for integers; a larger scale only has numbers that are not below those of a
smaller one.

**Theorems (`Double.ofInt_le`, `Double.le_ofInt`).** A finite number is rounded to itself, so an
integer that is not above a number is not above it once it is rounded, and the same holds below.
-/

namespace ResourceApi.Double

variable {num den num' den' : Nat} {x x' : ℚ} {k k' : Int} {d : Double}

/-! ## Fractions -/

/-- Halfway between two integers the even one is chosen. -/
theorem halfEven_tie (num : Nat) (hden : 0 < den) : halfEven num den % 2 = 0 ∨
    (halfEven num den : ℚ) - 1 / 2 < num / den ∧ (num : ℚ) / den < halfEven num den + 1 / 2 := by
  have hden' : (0 : ℚ) < den := by positivity
  have hnum : num / den * den + num % den = num := Nat.div_add_mod' num den
  have hrest : num % den < den := Nat.mod_lt num hden
  have hnat : halfEven num den % 2 = 0 ∨ 2 * (halfEven num den * den) < 2 * num + den ∧
      2 * num < 2 * (halfEven num den * den) + den := by
    unfold halfEven
    dsimp only
    split_ifs
    · right
      omega
    · right
      rw [Nat.add_mul]
      omega
    · left
      omega
  refine hnat.imp_right fun ⟨hlow, hhigh⟩ => ?_
  rw [lt_div_iff₀ hden', div_lt_iff₀ hden']
  constructor
  · have : ((2 * (halfEven num den * den) : Nat) : ℚ) < (2 * num + den : Nat) := by
      exact_mod_cast hlow
    push_cast at this
    linarith
  · have : ((2 * num : Nat) : ℚ) < (2 * (halfEven num den * den) + den : Nat) := by
      exact_mod_cast hhigh
    push_cast at this
    linarith

/-- A larger fraction is not rounded to a smaller integer. -/
theorem halfEven_mono (hden : 0 < den) (hden' : 0 < den') (h : (num : ℚ) / den ≤ num' / den') :
    halfEven num den ≤ halfEven num' den' := by
  obtain ⟨hlow, -⟩ := halfEven_bounds (n := num) hden
  obtain ⟨-, hhigh⟩ := halfEven_bounds (n := num') hden'
  have htie := halfEven_tie num hden
  have htie' := halfEven_tie num' hden'
  generalize halfEven num den = m at *
  generalize halfEven num' den' = m' at *
  by_contra hlt
  have hnext : ((m' + 1 : Nat) : ℚ) ≤ m := by exact_mod_cast not_le.1 hlt
  push_cast at hnext
  -- both fractions are halfway between the same integers, and both integers are even
  have hsame : (m : ℚ) = m' + 1 := by linarith
  have hm : m % 2 = 0 := htie.resolve_right fun h => by linarith [h.1]
  have hm' : m' % 2 = 0 := htie'.resolve_right fun h => by linarith [h.2]
  have : m = m' + 1 := by exact_mod_cast hsame
  omega

/-- A larger fraction does not have a smaller scale. -/
theorem ScaledBy.mono (hk : ScaledBy x k) (hk' : ScaledBy x' k') (hx : 0 < x) (h : x ≤ x') :
    k ≤ k' := by
  by_contra hlt
  have hlarge : (2 : ℚ) ^ 52 ≤ x * 2 ^ (-k) := hk.le.resolve_left (by have := hk'.least; omega)
  have hfactor : (2 : ℚ) ^ (1 : Int) ≤ 2 ^ (k - k') := zpow_le_zpow_right₀ one_le_two (by omega)
  refine absurd hk'.lt (not_lt.2 ?_)
  calc (2 : ℚ) ^ 53
    _ = 2 ^ 52 * 2 ^ (1 : Int) := by norm_num
    _ ≤ x * 2 ^ (-k) * 2 ^ (k - k') := mul_le_mul hlarge hfactor (by positivity) (by positivity)
    _ = x * 2 ^ (-k') := by
      rw [mul_assoc, ← zpow_add₀ two_ne_zero]
      congr 2
      omega
    _ ≤ x' * 2 ^ (-k') := by gcongr

/-- At its scale, a fraction is rounded to an integer of fifty-three binary digits, or to the next
power of two. -/
theorem halfEven_scaled (hden : 0 < den)
    (hx : (num : ℚ) / den = x * 2 ^ (-k)) (hk : ScaledBy x k) :
    halfEven num den ≤ 2 ^ 53 ∧ (k = -1074 ∨ 2 ^ 52 ≤ halfEven num den) := by
  obtain ⟨hlow, hhigh⟩ := halfEven_bounds (n := num) hden
  rw [hx] at hlow hhigh
  generalize halfEven num den = m at *
  constructor
  · by_contra hlarge
    have hlarge : ((2 ^ 53 + 1 : Nat) : ℚ) ≤ m := by exact_mod_cast not_le.1 hlarge
    push_cast at hlarge
    linarith [hk.lt]
  · refine hk.le.imp_right fun hge => ?_
    by_contra hsmall
    have hsmall : ((m + 1 : Nat) : ℚ) ≤ (2 ^ 52 : Nat) := by exact_mod_cast not_le.1 hsmall
    push_cast at hsmall
    linarith

/-- **A larger fraction is not rounded to a smaller number.** -/
theorem roundedMagnitude_mono (hden : 0 < den) (hden' : 0 < den')
    (h : (num : ℚ) / den ≤ num' / den') :
    roundedMagnitude num den ≤ roundedMagnitude num' den' := by
  rcases Nat.eq_zero_or_pos num with rfl | hnum
  · simp [roundedMagnitude]
  have hx : (0 : ℚ) < num / den := by positivity
  have hnum' : 0 < num' := by
    by_contra hzero
    rw [Nat.eq_zero_of_not_pos hzero, Nat.cast_zero, zero_div] at h
    linarith
  have hk := scaledBy_scaleOf hnum hden
  have hk' := scaledBy_scaleOf hnum' hden'
  have hscale := hk.mono hk' hx h
  obtain ⟨hpos, hshifted⟩ := shifted_spec num hden (scaleOf num den)
  obtain ⟨hpos', hshifted'⟩ := shifted_spec num' hden' (scaleOf num' den')
  obtain ⟨hmost, -⟩ := halfEven_scaled hpos hshifted hk
  obtain ⟨-, hleast⟩ := halfEven_scaled hpos' hshifted' hk'
  unfold roundedMagnitude
  rw [if_neg hnum.ne', if_neg hnum'.ne']
  dsimp only
  refine min_le_min_left _ ?_
  rcases hscale.lt_or_eq with hless | hsame
  · have hleast := hleast.resolve_left (by have := hk.least; omega)
    have hk := hk.least
    unfold leadingBit
    omega
  · rw [hsame] at hpos hshifted ⊢
    refine Nat.add_le_add_left (halfEven_mono hpos hpos' ?_) _
    rw [hshifted, hshifted']
    gcongr

/-! ## Sizes -/

theorem size_nonneg (d : Double) : 0 ≤ d.size := by
  unfold size
  positivity

theorem size_mul (d : Double) : d.size * unitsInOne = units d.magnitude := by
  obtain ⟨hden, hsize⟩ := d.ratio_spec
  have hden' : (d.ratio.2 : ℚ) ≠ 0 := by positivity
  have hunits : (d.ratio.1 : ℚ) * unitsInOne = units d.magnitude * d.ratio.2 := by
    exact_mod_cast d.ratio_units.2
  rw [← hsize, div_mul_eq_mul_div, hunits, mul_div_assoc, div_self hden', mul_one]

theorem size_le_size {a b : Double} (h : a.magnitude ≤ b.magnitude) : a.size ≤ b.size := by
  have hpos : (0 : ℚ) < unitsInOne := Nat.cast_pos.2 unitsInOne_pos
  rw [← mul_le_mul_iff_of_pos_right hpos, size_mul, size_mul]
  exact_mod_cast units_strictMono.monotone h

theorem value_eq (d : Double) : d.value = if d.isNegative then -d.size else d.size := by
  rw [← d.ratio_spec.2]
  unfold value signedRatio
  dsimp only
  split
  · rw [Int.cast_neg, Int.cast_natCast, neg_div]
  · rw [Int.cast_natCast]

/-- **A finite number is rounded to itself.** -/
theorem roundedMagnitude_ratio (h : d.isFinite = true) :
    roundedMagnitude d.ratio.1 d.ratio.2 = d.magnitude := by
  obtain ⟨hden, hsize⟩ := d.ratio_spec
  have hpower : (2 : ℚ) ^ d.exponent * 2 ^ (-d.exponent) = 1 := by
    rw [← zpow_add₀ two_ne_zero, add_neg_cancel, zpow_zero]
  have hscaled : (d.ratio.1 : ℚ) / d.ratio.2 * 2 ^ (-d.exponent) = d.significand := by
    rw [hsize, size, mul_assoc, hpower, mul_one]
  by_cases hzero : d.isZero = true
  · have hmagnitude : d.magnitude = 0 := beq_iff_eq.1 hzero
    have hsignificand : d.significand = 0 := by
      unfold significand
      rw [hmagnitude]
      rfl
    have hnum : d.ratio.1 = 0 := by
      have hden' : (d.ratio.2 : ℚ) ≠ 0 := by positivity
      rw [size, hsignificand, Nat.cast_zero, zero_mul, div_eq_zero_iff] at hsize
      exact_mod_cast hsize.resolve_right hden'
    rw [hmagnitude, hnum]
    rfl
  · have hnum : 0 < d.ratio.1 := by
      have hsignificand := significand_pos (Bool.eq_false_iff.2 hzero)
      by_contra hnum
      rw [Nat.eq_zero_of_not_pos hnum, Nat.cast_zero, zero_div, zero_mul] at hscaled
      have : d.significand = 0 := by exact_mod_cast hscaled.symm
      omega
    have hnear : Near d.significand d.exponent ((d.ratio.1 : ℚ) / d.ratio.2) := by
      constructor
      · rw [hscaled]
        split_ifs <;> linarith
      · rw [hscaled]
        linarith
      · rw [hscaled]
        exact .inr ⟨by linarith, by linarith⟩
    rw [magnitude_eq]
    refine roundedMagnitude_eq hnum hden d.significand_lt d.exponent_ge d.exponent_eq_or hnear ?_
    rw [← magnitude_eq]
    exact of_decide_eq_true h

/-! ## Rounded fractions -/

theorem roundedMagnitude_lt (num den : Nat) : roundedMagnitude num den < signBit := by
  have hbelow : infinity < signBit := by decide
  refine Nat.lt_of_le_of_lt ?_ hbelow
  unfold roundedMagnitude
  split
  · exact Nat.zero_le _
  · exact Nat.min_le_left _ _

theorem isNegative_ofMagnitude {m : Nat} (negative : Bool) (h : m < signBit) :
    (ofMagnitude negative m).isNegative = negative := by
  unfold ofMagnitude isNegative
  rw [UInt64.toNat_ofNat']
  unfold signBit at *
  cases negative <;> simp <;> omega

theorem magnitude_ofRatio (negative : Bool) (num den : Nat) :
    (ofRatio negative num den).magnitude = roundedMagnitude num den :=
  magnitude_ofMagnitude negative (roundedMagnitude_lt num den)

theorem value_ofRatio (negative : Bool) (num den : Nat) : (ofRatio negative num den).value =
    if negative then -(ofRatio negative num den).size else (ofRatio negative num den).size := by
  rw [value_eq]
  unfold ofRatio
  rw [isNegative_ofMagnitude negative (roundedMagnitude_lt num den)]

theorem size_ofRatio_le (negative : Bool) (hfinite : d.isFinite = true) (hden : 0 < den)
    (h : (num : ℚ) / den ≤ d.size) : (ofRatio negative num den).size ≤ d.size := by
  obtain ⟨hden', hsize⟩ := d.ratio_spec
  apply size_le_size
  rw [magnitude_ofRatio, ← roundedMagnitude_ratio hfinite]
  exact roundedMagnitude_mono hden hden' (hsize ▸ h)

theorem le_size_ofRatio (negative : Bool) (hfinite : d.isFinite = true) (hden : 0 < den)
    (h : d.size ≤ (num : ℚ) / den) : d.size ≤ (ofRatio negative num den).size := by
  obtain ⟨hden', hsize⟩ := d.ratio_spec
  apply size_le_size
  rw [magnitude_ofRatio, ← roundedMagnitude_ratio hfinite]
  exact roundedMagnitude_mono hden' hden (hsize ▸ h)

/-- A fraction that is nothing is rounded to nothing. -/
theorem size_ofRatio_zero (negative : Bool) (hden : 0 < den) (h : (num : ℚ) / den ≤ 0) :
    (ofRatio negative num den).size = 0 := by
  have hzero : zero.size = 0 := by
    have hsignificand : zero.significand = 0 := by decide
    rw [size, hsignificand, Nat.cast_zero, zero_mul]
  have hfinite : zero.isFinite = true := by decide
  have hle := size_ofRatio_le negative hfinite hden (hzero.symm ▸ h)
  exact le_antisymm (hzero ▸ hle) (size_nonneg _)

/-! ## Rounded integers -/

theorem cast_eq_ratio (i : Int) :
    (i : ℚ) = if i < 0 then -((i.natAbs : ℚ) / (1 : Nat)) else (i.natAbs : ℚ) / (1 : Nat) := by
  rw [Nat.cast_one, div_one, Nat.cast_natAbs, Int.cast_abs]
  split
  · rename_i h
    rw [abs_of_neg (Int.cast_lt_zero.2 h), neg_neg]
  · rename_i h
    rw [abs_of_nonneg (by exact_mod_cast not_lt.1 h)]

theorem value_ofInt (i : Int) : (ofInt i).value =
    if i < 0 then -(ofRatio true i.natAbs 1).size else (ofRatio false i.natAbs 1).size := by
  unfold ofInt
  by_cases hi : i < 0
  · simp only [value_ofRatio, hi, decide_true, if_true]
  · simp only [value_ofRatio, hi, decide_false, if_false, Bool.false_eq_true]

/-- **An integer below a number is not rounded past it.** -/
theorem ofInt_le (hfinite : d.isFinite = true) {i : Int} (h : (i : ℚ) ≤ d.value) :
    (ofInt i).value ≤ d.value := by
  have hnonneg : (0 : ℚ) ≤ (i.natAbs : ℚ) / (1 : Nat) := by positivity
  have hsize := d.size_nonneg
  have hvalue := d.value_eq
  rw [cast_eq_ratio] at h
  rw [value_ofInt]
  split_ifs at h hvalue ⊢
  · have hround : d.size ≤ (ofRatio true i.natAbs 1).size :=
      le_size_ofRatio true hfinite Nat.one_pos (by linarith)
    linarith
  · have := size_nonneg (ofRatio true i.natAbs 1)
    linarith
  · have hround : (ofRatio false i.natAbs 1).size = 0 :=
      size_ofRatio_zero false Nat.one_pos (by linarith)
    linarith
  · rw [hvalue] at h ⊢
    exact size_ofRatio_le false hfinite Nat.one_pos h

/-- **An integer above a number is not rounded past it.** -/
theorem le_ofInt (hfinite : d.isFinite = true) {i : Int} (h : d.value ≤ i) :
    d.value ≤ (ofInt i).value := by
  have hnonneg : (0 : ℚ) ≤ (i.natAbs : ℚ) / (1 : Nat) := by positivity
  have hsize := d.size_nonneg
  have hvalue := d.value_eq
  rw [cast_eq_ratio] at h
  rw [value_ofInt]
  split_ifs at h hvalue ⊢
  · have hround : (ofRatio true i.natAbs 1).size ≤ d.size :=
      size_ofRatio_le true hfinite Nat.one_pos (by linarith)
    linarith
  · have hround : (ofRatio true i.natAbs 1).size = 0 :=
      size_ofRatio_zero true Nat.one_pos (by linarith)
    linarith
  · have := size_nonneg (ofRatio false i.natAbs 1)
    linarith
  · rw [hvalue] at h ⊢
    exact le_size_ofRatio false hfinite Nat.one_pos h

/-- An integer that is the value of a finite number is not changed by rounding. -/
theorem ofInt_eq (hfinite : d.isFinite = true) {i : Int} (h : d.value = i) :
    (ofInt i).value = i :=
  le_antisymm (h ▸ ofInt_le hfinite h.ge) (h ▸ le_ofInt hfinite h.le)

/-! ## Exact integers -/

/-- The parts of a finite number are found in its bits. -/
theorem size_ofMagnitude {m : Nat} {e : Int} (negative : Bool) (hm : m < 2 ^ 53) (he : -1074 ≤ e)
    (hm' : e = -1074 ∨ 2 ^ 52 ≤ m) (hfinite : (e + 1074).toNat * leadingBit + m < infinity) :
    (ofMagnitude negative ((e + 1074).toNat * leadingBit + m)).isFinite = true ∧
      (ofMagnitude negative ((e + 1074).toNat * leadingBit + m)).size = m * 2 ^ e := by
  have hbelow : infinity < signBit := by decide
  have hmagnitude := magnitude_ofMagnitude negative (Nat.lt_trans hfinite hbelow)
  generalize ofMagnitude negative ((e + 1074).toNat * leadingBit + m) = d at *
  have hsignificand : d.significand = m := by
    unfold significand
    rw [hmagnitude]
    unfold leadingBit
    split <;> omega
  have hexponent : d.exponent = e := by
    unfold exponent
    rw [hmagnitude]
    unfold leadingBit
    omega
  refine ⟨?_, ?_⟩
  · rw [isFinite, hmagnitude]
    exact decide_eq_true hfinite
  · rw [size, hsignificand, hexponent]

/-- An integer of at most fifty-three binary digits is the absolute value of a number. -/
theorem exists_size (negative : Bool) {n : Nat} (h : n ≤ 2 ^ 53) :
    ∃ d : Double, d.isFinite = true ∧ d.isNegative = negative ∧ d.size = n := by
  have hfound : ∀ m : Nat, ∀ e : Int, m < 2 ^ 53 → -1074 ≤ e → e ≤ 1 → (e = -1074 ∨ 2 ^ 52 ≤ m) →
      (m : ℚ) * 2 ^ e = n →
      ∃ d : Double, d.isFinite = true ∧ d.isNegative = negative ∧ d.size = n := by
    intro m e hm he hsmall hm' hn
    have hinfinity : (e + 1074).toNat * leadingBit + m < infinity := by
      unfold infinity leadingBit
      omega
    have hbelow : infinity < signBit := by decide
    obtain ⟨hfinite, hsize⟩ := size_ofMagnitude negative hm he hm' hinfinity
    exact ⟨_, hfinite, isNegative_ofMagnitude negative (Nat.lt_trans hinfinity hbelow),
      hsize.trans hn⟩
  rcases Nat.eq_zero_or_pos n with rfl | hpos
  · exact hfound 0 (-1074) (by decide) le_rfl (by decide) (.inl rfl) (by simp)
  rcases h.lt_or_eq with hless | rfl
  · -- the digits are moved up until there are fifty-three of them
    have hlow : 2 ^ n.log2 ≤ n := Nat.log2_self_le hpos.ne'
    have hhigh : n < 2 ^ (n.log2 + 1) := Nat.lt_log2_self
    have hlog : n.log2 < 53 := (Nat.log2_lt hpos.ne').2 hless
    refine hfound (n * 2 ^ (52 - n.log2)) ((n.log2 : Int) - 52) ?_ (by omega) (by omega) ?_ ?_
    · calc n * 2 ^ (52 - n.log2)
        _ < 2 ^ (n.log2 + 1) * 2 ^ (52 - n.log2) :=
          Nat.mul_lt_mul_of_pos_right hhigh (Nat.two_pow_pos _)
        _ = 2 ^ 53 := by
          rw [← Nat.pow_add]
          congr 1
          omega
    · right
      calc 2 ^ 52
        _ = 2 ^ n.log2 * 2 ^ (52 - n.log2) := by
          rw [← Nat.pow_add]
          congr 1
          omega
        _ ≤ n * 2 ^ (52 - n.log2) := Nat.mul_le_mul_right _ hlow
    · have hpower : (2 : ℚ) ^ (52 - n.log2) * 2 ^ ((n.log2 : Int) - 52) = 1 := by
        rw [← zpow_natCast, ← zpow_add₀ two_ne_zero]
        have : ((52 - n.log2 : Nat) : Int) + ((n.log2 : Int) - 52) = 0 := by omega
        rw [this, zpow_zero]
      rw [Nat.cast_mul, Nat.cast_pow, Nat.cast_ofNat, mul_assoc, hpower, mul_one]
  · exact hfound (2 ^ 52) 1 (by decide) (by decide) le_rfl (.inr le_rfl) (by norm_num)

/-- **Integers of at most fifty-three binary digits are not changed by rounding.** -/
theorem ofInt_small {i : Int} (h : i.natAbs ≤ 2 ^ 53) : (ofInt i).value = i := by
  obtain ⟨d, hfinite, hnegative, hsize⟩ := exists_size (decide (i < 0)) h
  refine ofInt_eq hfinite ?_
  rw [value_eq, hnegative, hsize, cast_eq_ratio, Nat.cast_one, div_one]
  simp only [decide_eq_true_eq]

end ResourceApi.Double
