import ResourceApi.Proofs.Double.Reading

/-!
# Shortest digits

**Theorem (`Double.denotes_shortest`).** The digits that are written for a number are near it, so
they are read as the number. Digits are looked for up to seventeen of them, and on the grid of
seventeen digits the nearest decimal is always near enough: it is off by a half of the last digit,
which is less than a part in `2 ^ 54` of the number.
-/

namespace ResourceApi

/-- The decimal of some digits. -/
def Digits.size (digits : Digits) : ℚ := digits.value * 10 ^ (digits.point - digits.count)

/-- Digits that are read as the number, with as many digits as they count. -/
structure Digits.Denotes (digits : Digits) (d : Double) : Prop where
  count_pos : 0 < digits.count
  value_lt : digits.value < 10 ^ digits.count
  near : d.IsNear digits.size

namespace Double

variable {d : Double} {value count : Nat} {exponent point : Int} {digits : Digits}

/-! ## Decimals that read back -/

/-- Ends of the rounding interval, in units of the last binary digit. -/
theorem end_iff (hzero : d.isZero = false) (c value : Nat) (exponent : Int) :
    (d.ratio.1 * c * (powerOfTen exponent).2 ≤
        value * (powerOfTen exponent).1 * (d.ratio.2 * (4 * d.significand)) ↔
      (c : ℚ) / 4 ≤ value * 10 ^ exponent * 2 ^ (-d.exponent)) ∧
    (value * (powerOfTen exponent).1 * (d.ratio.2 * (4 * d.significand)) ≤
        d.ratio.1 * c * (powerOfTen exponent).2 ↔
      value * 10 ^ exponent * 2 ^ (-d.exponent) ≤ (c : ℚ) / 4) := by
  obtain ⟨hden, hratio⟩ := d.ratio_spec
  obtain ⟨-, hpd, hpower⟩ := powerOfTen_spec exponent
  have hm : (0 : ℚ) < d.significand := by exact_mod_cast significand_pos hzero
  have hden' : (0 : ℚ) < d.ratio.2 := by exact_mod_cast hden
  have hpd' : (0 : ℚ) < (powerOfTen exponent).2 := by exact_mod_cast hpd
  have hunit : (0 : ℚ) < 2 ^ d.exponent := by positivity
  rw [div_eq_iff hden'.ne', size] at hratio
  rw [div_eq_iff hpd'.ne'] at hpower
  -- both sides are multiples of one positive factor
  have hfactor :
      (0 : ℚ) < 4 * d.significand * 2 ^ d.exponent * d.ratio.2 * (powerOfTen exponent).2 := by
    positivity
  have hleft : ((d.ratio.1 * c * (powerOfTen exponent).2 : Nat) : ℚ) =
      c / 4 * (4 * d.significand * 2 ^ d.exponent * d.ratio.2 * (powerOfTen exponent).2) := by
    push_cast
    rw [hratio]
    ring
  have hright : ((value * (powerOfTen exponent).1 * (d.ratio.2 * (4 * d.significand)) : Nat) : ℚ) =
      value * 10 ^ exponent * 2 ^ (-d.exponent) *
        (4 * d.significand * 2 ^ d.exponent * d.ratio.2 * (powerOfTen exponent).2) := by
    push_cast
    rw [hpower, zpow_neg]
    field_simp
  rw [← Nat.cast_le (α := ℚ), ← Nat.cast_le (α := ℚ), hleft, hright,
    mul_le_mul_iff_left₀ hfactor, mul_le_mul_iff_left₀ hfactor]
  exact ⟨Iff.rfl, Iff.rfl⟩

/-- The lower end is closer below a power of two. -/
theorem lowEnd_eq (hzero : d.isZero = false) :
    (((if d.significand = leadingBit ∧ leadingBit < d.magnitude then 4 * d.significand - 1
      else 4 * d.significand - 2 : Nat) : ℚ) / 4) =
      d.significand - (if d.significand = 2 ^ 52 ∧ -1074 < d.exponent then 1 / 4 else 1 / 2) := by
  have hm := significand_pos hzero
  have hsame : (d.significand = leadingBit ∧ leadingBit < d.magnitude) ↔
      d.significand = 2 ^ 52 ∧ -1074 < d.exponent := by
    have hmagnitude := d.magnitude_eq
    have := d.exponent_ge
    unfold leadingBit at *
    omega
  simp only [hsame]
  split
  · rw [Nat.cast_sub (by omega)]
    push_cast
    ring
  · rw [Nat.cast_sub (by omega)]
    push_cast
    ring

/-- **A decimal reads back if it is near the number.** -/
theorem readsBack_iff (hzero : d.isZero = false) :
    d.readsBack value exponent = true ↔ d.IsNear (value * 10 ^ exponent) := by
  have hlow := lowEnd_eq hzero
  have hhigh : ((4 * d.significand + 2 : Nat) : ℚ) / 4 = d.significand + 1 / 2 := by
    push_cast
    ring
  unfold readsBack roundingInterval
  dsimp only
  generalize (if d.significand = leadingBit ∧ leadingBit < d.magnitude then 4 * d.significand - 1
    else 4 * d.significand - 2) = below at *
  obtain ⟨hbelow, hbelow'⟩ := end_iff hzero below value exponent
  obtain ⟨habove, habove'⟩ := end_iff hzero (4 * d.significand + 2) value exponent
  rw [hlow] at hbelow hbelow'
  rw [hhigh] at habove habove'
  split
  · rename_i heven
    rw [Bool.and_eq_true, decide_eq_true_iff, decide_eq_true_iff, hbelow, habove']
    exact ⟨fun ⟨hl, hh⟩ => ⟨hl, hh, .inl heven⟩, fun h => ⟨h.low, h.high⟩⟩
  · rename_i hodd
    have hhalf : ¬(d.significand = 2 ^ 52 ∧ -1074 < d.exponent) := by omega
    rw [if_neg hhalf] at hbelow'
    rw [Bool.and_eq_true, decide_eq_true_iff, decide_eq_true_iff, ← not_le, ← not_le, hbelow',
      habove, not_le, not_le]
    refine ⟨fun ⟨hl, hh⟩ => ⟨?_, hh.le, .inr ⟨hl, hh⟩⟩, fun h => h.tie.resolve_left hodd⟩
    rw [if_neg hhalf]
    exact hl.le

/-! ## The place of the first digit -/

theorem lt_powerOfTen_iff {num den : Nat} (hden : 0 < den) (e : Int) :
    num * (powerOfTen e).2 < (powerOfTen e).1 * den ↔ (num : ℚ) / den < 10 ^ e := by
  obtain ⟨-, hpd, hpower⟩ := powerOfTen_spec e
  have hpd' : (0 : ℚ) < (powerOfTen e).2 := by exact_mod_cast hpd
  have hden' : (0 : ℚ) < den := by exact_mod_cast hden
  rw [← hpower, div_lt_div_iff₀ hden' hpd']
  exact_mod_cast Iff.rfl

/-- A fraction is between powers of ten that are told by the lengths of its parts. -/
theorem quotient_bounds {num den : ℚ} {i j : Int} (hden : 0 < den)
    (hnum' : 10 ^ (i - 1) ≤ num) (hnum'' : num < 10 ^ i) (hden' : 10 ^ (j - 1) ≤ den)
    (hden'' : den < 10 ^ j) :
    10 ^ (i - j - 1) ≤ num / den ∧ num / den < 10 ^ (i - j + 1) := by
  have hten : (10 : ℚ) ≠ 0 := by norm_num
  constructor
  · rw [le_div_iff₀ hden]
    calc (10 : ℚ) ^ (i - j - 1) * den
      _ ≤ 10 ^ (i - j - 1) * 10 ^ j := by gcongr
      _ = 10 ^ (i - 1) := by
        rw [← zpow_add₀ hten]
        congr 1
        omega
      _ ≤ num := hnum'
  · rw [div_lt_iff₀ hden]
    calc (num : ℚ)
      _ < 10 ^ i := hnum''
      _ = 10 ^ (i - j + 1) * 10 ^ (j - 1) := by
        rw [← zpow_add₀ hten]
        congr 1
        omega
      _ ≤ 10 ^ (i - j + 1) * den := by gcongr

theorem decimalPoint_spec {num den : Nat} (hnum : 0 < num) (hden : 0 < den) :
    (10 : ℚ) ^ (decimalPoint num den - 1) ≤ num / den ∧
      (num : ℚ) / den < 10 ^ decimalPoint num den := by
  obtain ⟨hnum', hnum''⟩ := length_toDigits_bounds hnum
  obtain ⟨hden', hden''⟩ := length_toDigits_bounds hden
  obtain ⟨hlow, hhigh⟩ := quotient_bounds (by positivity) hnum' hnum'' hden' hden''
  unfold decimalPoint
  dsimp only
  split
  · rename_i hless
    exact ⟨hlow, (lt_powerOfTen_iff hden _).1 hless⟩
  · rename_i hmore
    rw [add_sub_cancel_right]
    exact ⟨not_lt.1 (mt (lt_powerOfTen_iff hden _).2 hmore), hhigh⟩

/-! ## The grid -/

theorem halfEven_bounds {n m : Nat} (hm : 0 < m) :
    (halfEven n m : ℚ) - 1 / 2 ≤ n / m ∧ (n : ℚ) / m ≤ halfEven n m + 1 / 2 := by
  have hm' : (0 : ℚ) < m := by positivity
  have hn : n / m * m + n % m = n := Nat.div_add_mod' n m
  have hrest : n % m < m := Nat.mod_lt n hm
  have hnat : 2 * (halfEven n m * m) ≤ 2 * n + m ∧ 2 * n ≤ 2 * (halfEven n m * m) + m := by
    unfold halfEven
    dsimp only
    split_ifs
    · omega
    · rw [Nat.add_mul]
      omega
    · rcases Nat.mod_two_eq_zero_or_one (n / m) with h | h
      · rw [h, Nat.add_zero]
        omega
      · rw [h, Nat.add_mul]
        omega
  rw [le_div_iff₀ hm', div_le_iff₀ hm']
  constructor
  · have : ((2 * (halfEven n m * m) : Nat) : ℚ) ≤ (2 * n + m : Nat) := by exact_mod_cast hnat.1
    push_cast at this
    linarith
  · have : ((2 * n : Nat) : ℚ) ≤ (2 * (halfEven n m * m) + m : Nat) := by exact_mod_cast hnat.2
    push_cast at this
    linarith

theorem halfEven_le (n m : Nat) : halfEven n m ≤ n / m + 1 := by
  unfold halfEven
  dsimp only
  split_ifs <;> omega

/-- The number in units of the last of some digits, as a fraction. -/
def onScale (d : Double) (count : Nat) : Nat × Nat :=
  let power := powerOfTen (decimalPoint d.ratio.1 d.ratio.2 - count)
  (d.ratio.1 * power.2, d.ratio.2 * power.1)

theorem onScale_spec (hzero : d.isZero = false) (count : Nat) :
    0 < (d.onScale count).2 ∧
      ((d.onScale count).1 : ℚ) / (d.onScale count).2 *
        10 ^ (decimalPoint d.ratio.1 d.ratio.2 - count) = d.size ∧
      10 ^ ((count : Int) - 1) ≤ ((d.onScale count).1 : ℚ) / (d.onScale count).2 ∧
      ((d.onScale count).1 : ℚ) / (d.onScale count).2 < 10 ^ (count : Int) := by
  obtain ⟨hden, hratio⟩ := d.ratio_spec
  have hsize : 0 < d.size := by
    have : 0 < d.significand := significand_pos hzero
    unfold size
    positivity
  have hnum : 0 < d.ratio.1 := by
    rw [← hratio] at hsize
    by_contra h
    rw [Nat.eq_zero_of_not_pos h] at hsize
    simp at hsize
  obtain ⟨hlow, hhigh⟩ := decimalPoint_spec hnum hden
  unfold onScale
  dsimp only
  generalize decimalPoint d.ratio.1 d.ratio.2 = point at *
  obtain ⟨hpn, hpd, hpower⟩ := powerOfTen_spec (point - count)
  have hden' : (d.ratio.2 : ℚ) ≠ 0 := by positivity
  have hpn' : ((powerOfTen (point - count)).1 : ℚ) ≠ 0 := by positivity
  have hpd' : ((powerOfTen (point - count)).2 : ℚ) ≠ 0 := by positivity
  have hten : (10 : ℚ) ≠ 0 := by norm_num
  have hscaled : ((d.ratio.1 * (powerOfTen (point - count)).2 : Nat) : ℚ) /
      (d.ratio.2 * (powerOfTen (point - count)).1 : Nat) * 10 ^ (point - count) = d.size := by
    rw [← hpower, ← hratio]
    push_cast
    field_simp
  have hpos : (0 : ℚ) < 10 ^ (point - count) := by positivity
  rw [hratio, ← hscaled] at hlow hhigh
  refine ⟨Nat.mul_pos hden hpn, hscaled, ?_, ?_⟩
  · refine le_of_mul_le_mul_right (le_trans (le_of_eq ?_) hlow) hpos
    rw [← zpow_add₀ hten]
    congr 1
    omega
  · refine lt_of_mul_lt_mul_right (lt_of_lt_of_eq hhigh ?_) hpos.le
    rw [← zpow_add₀ hten]
    congr 1
    omega

/-- The decimals of a grid that lie around the number, in units of the last digit: the nearer one
first. -/
def around (d : Double) (count : Nat) : Nat × Nat :=
  let low := (d.onScale count).1 / (d.onScale count).2
  let rounded := halfEven (d.onScale count).1 (d.onScale count).2
  (rounded, if rounded = low then low + 1 else low)

theorem onGrid?_eq (d : Double) (count : Nat) : d.onGrid? count =
    let point := decimalPoint d.ratio.1 d.ratio.2
    if d.readsBack (d.around count).1 (point - count) then
      some (carried (d.around count).1 count point)
    else if d.readsBack (d.around count).2 (point - count) then
      some (carried (d.around count).2 count point)
    else none := by
  unfold onGrid?
  rfl

theorem around_le (hzero : d.isZero = false) (count : Nat) :
    (d.around count).1 ≤ 10 ^ count ∧ (d.around count).2 ≤ 10 ^ count := by
  obtain ⟨hpos, -, -, hlt⟩ := onScale_spec hzero count
  have hpos' : (0 : ℚ) < (d.onScale count).2 := by exact_mod_cast hpos
  rw [zpow_natCast, div_lt_iff₀ hpos'] at hlt
  have hlow : (d.onScale count).1 / (d.onScale count).2 < 10 ^ count :=
    (Nat.div_lt_iff_lt_mul hpos).2 (by exact_mod_cast hlt)
  have hround := halfEven_le (d.onScale count).1 (d.onScale count).2
  unfold around
  dsimp only
  refine ⟨by omega, ?_⟩
  split <;> omega

/-- Digits that are accepted are near the number. -/
theorem exists_of_onGrid? (hzero : d.isZero = false) (h : d.onGrid? count = some digits) :
    ∃ value, value ≤ 10 ^ count ∧
      d.readsBack value (decimalPoint d.ratio.1 d.ratio.2 - count) = true ∧
      digits = carried value count (decimalPoint d.ratio.1 d.ratio.2) := by
  obtain ⟨hfirst, hsecond⟩ := around_le hzero count
  rw [onGrid?_eq] at h
  dsimp only at h
  split at h
  · rename_i haccepted
    exact ⟨_, hfirst, haccepted, (Option.some.inj h).symm⟩
  · split at h
    · rename_i haccepted
      exact ⟨_, hsecond, haccepted, (Option.some.inj h).symm⟩
    · cases h

/-- On the grid of seventeen digits the nearest decimal is near enough. -/
theorem near_seventeen (hzero : d.isZero = false) :
    d.IsNear ((d.around 17).1 * 10 ^ (decimalPoint d.ratio.1 d.ratio.2 - (17 : Nat))) := by
  obtain ⟨hpos, hsize, hlow, -⟩ := onScale_spec hzero 17
  obtain ⟨hround, hround'⟩ : ((d.around 17).1 : ℚ) - 1 / 2 ≤ _ ∧ _ ≤ ((d.around 17).1 : ℚ) + 1 / 2 :=
    halfEven_bounds (n := (d.onScale 17).1) hpos
  generalize ((d.around 17).1 : ℚ) = rounded at *
  generalize ((d.onScale 17).1 : ℚ) / (d.onScale 17).2 = y at *
  have hm := cast_le_of_lt d.significand_lt
  -- one unit of the grid, in units of the last binary digit
  obtain ⟨unit, hunit⟩ : ∃ unit : ℚ, unit =
      10 ^ (decimalPoint d.ratio.1 d.ratio.2 - (17 : Nat)) * 2 ^ (-d.exponent) := ⟨_, rfl⟩
  have hunit_pos : 0 < unit := by
    rw [hunit]
    positivity
  have hwhole : y * unit = d.significand := by
    rw [hunit, ← mul_assoc, hsize, size, mul_assoc, ← zpow_add₀ two_ne_zero, add_neg_cancel,
      zpow_zero, mul_one]
  have hsmall : 10 ^ 16 * unit ≤ d.significand := by
    rw [← hwhole]
    norm_num at hlow
    exact mul_le_mul_of_nonneg_right (by norm_num; exact hlow) hunit_pos.le
  have hbelow : d.significand - unit / 2 ≤ rounded * unit := by nlinarith
  have habove : rounded * unit ≤ d.significand + unit / 2 := by nlinarith
  have hvalue : rounded * 10 ^ (decimalPoint d.ratio.1 d.ratio.2 - (17 : Nat)) *
      2 ^ (-d.exponent) = rounded * unit := by
    rw [hunit, mul_assoc]
  refine ⟨?_, ?_, .inr ⟨?_, ?_⟩⟩
  · rw [hvalue]
    refine le_trans ?_ hbelow
    split
    · rename_i hpower
      rw [hpower.1] at hsmall ⊢
      push_cast at hsmall ⊢
      linarith
    · linarith
  all_goals
    rw [hvalue]
    linarith

/-! ## The digits that are written -/

theorem denotes_carried (hcount : 0 < count) (hvalue : value ≤ 10 ^ count)
    (hnear : d.IsNear (value * 10 ^ (point - count))) : (carried value count point).Denotes d := by
  have hten : (10 : ℚ) ≠ 0 := by norm_num
  unfold carried
  simp only [Nat.pow_eq]
  split
  · rename_i hcarry
    refine ⟨hcount, Nat.pow_lt_pow_right (by decide) (by dsimp only; omega), ?_⟩
    have hsame : (10 : ℚ) ^ (count - 1) * 10 ^ (point + 1 - count) =
        10 ^ count * 10 ^ (point - count) := by
      rw [← zpow_natCast, ← zpow_natCast, ← zpow_add₀ hten, ← zpow_add₀ hten]
      congr 1
      omega
    unfold Digits.size
    rw [hcarry] at hnear
    push_cast at hnear ⊢
    rw [← hsame] at hnear
    exact hnear
  · rename_i hcarry
    exact ⟨hcount, lt_of_le_of_ne hvalue hcarry, hnear⟩

theorem denotes_trim (h : digits.Denotes d) : digits.trim.Denotes d := by
  unfold Digits.trim
  generalize digits.count = fuel
  induction fuel generalizing digits with
  | zero => exact h
  | succ fuel ih =>
    unfold Digits.trim.go
    split
    · rename_i hlast
      obtain ⟨hcount, hvalue, hnear⟩ := h
      refine ih ⟨Nat.sub_pos_of_lt hlast.1, ?_, ?_⟩
      · show digits.value / 10 < 10 ^ (digits.count - 1)
        have hpow : 10 * 10 ^ (digits.count - 1) = 10 ^ digits.count := by
          rw [← Nat.pow_succ', Nat.succ_eq_add_one, Nat.sub_add_cancel hcount]
        exact Nat.div_lt_of_lt_mul (hpow ▸ hvalue)
      · have hten : (10 : ℚ) ≠ 0 := by norm_num
        have hsame :
            ((digits.value / 10 : Nat) : ℚ) * 10 ^ (digits.point - (digits.count - 1 : Nat)) =
            digits.value * 10 ^ (digits.point - digits.count) := by
          have htenth : (digits.value : ℚ) = (digits.value / 10 : Nat) * 10 := by
            exact_mod_cast (Nat.div_mul_cancel (Nat.dvd_of_mod_eq_zero hlast.2)).symm
          have hplace : digits.point - ((digits.count - 1 : Nat) : Int) =
              1 + (digits.point - digits.count) := by omega
          rw [htenth, hplace, zpow_add₀ hten, zpow_one, mul_assoc]
        unfold Digits.size
        dsimp only
        rw [hsame]
        exact hnear
    · exact h

/-- **The digits that are written for a number denote it.** -/
theorem denotes_shortest (hzero : d.isZero = false) : d.shortest.Denotes d := by
  have hsome : ((List.range 17).findSome? fun n => d.onGrid? (n + 1)).isSome := by
    rw [List.isSome_findSome?, List.any_eq_true]
    refine ⟨16, by decide, ?_⟩
    have haccepted := (readsBack_iff hzero).2 (near_seventeen hzero)
    show (d.onGrid? 17).isSome = true
    rw [onGrid?_eq]
    dsimp only
    rw [if_pos haccepted]
    rfl
  obtain ⟨digits, hdigits⟩ := Option.isSome_iff_exists.1 hsome
  unfold shortest
  rw [hdigits]
  obtain ⟨n, -, hgrid⟩ := List.exists_of_findSome?_eq_some hdigits
  obtain ⟨value, hvalue, hreads, rfl⟩ := exists_of_onGrid? hzero hgrid
  exact denotes_trim (denotes_carried n.succ_pos hvalue ((readsBack_iff hzero).1 hreads))

end Double

end ResourceApi
