import Mathlib.Algebra.Order.Field.Power
import Mathlib.Algebra.Order.Field.Rat
import Mathlib.Tactic.FieldSimp
import Mathlib.Tactic.Linarith
import Mathlib.Tactic.NormNum
import Mathlib.Tactic.Positivity
import Mathlib.Tactic.Ring
import ResourceApi.Double.Decimal

/-!
# Rounding to floating point numbers

A fraction is scaled by a power of two, so that its integral part has fifty-three binary digits or
the power is the smallest one, and then it is rounded to an integer. `Near` says for a number of
that scale that a fraction is closer to it than to its neighbours.

**Theorem (`Double.roundedMagnitude_eq`).** A fraction is rounded to the number that it is near.

The fraction need not have the scale of the number: below a power of two it has the next smaller
scale, in which it is carried to the power (`Double.scale_cases`).
-/

namespace ResourceApi.Double

/-! ## Fractions -/

variable {num den n d m : Nat}

/-- A fraction is scaled by a power of two. -/
theorem shifted_spec (num : Nat) (hden : 0 < den) (shift : Int) :
    0 < (shifted num den shift).2 ∧
      ((shifted num den shift).1 : ℚ) / (shifted num den shift).2 = num / den * 2 ^ (-shift) := by
  have hden' : (den : ℚ) ≠ 0 := by positivity
  unfold shifted
  split
  · rename_i hshift
    obtain ⟨k, rfl⟩ := Int.eq_ofNat_of_zero_le hshift
    refine ⟨Nat.mul_pos hden (Nat.two_pow_pos _), ?_⟩
    simp only [Int.toNat_natCast, Nat.pow_eq, Nat.cast_mul, Nat.cast_pow, Nat.cast_ofNat, zpow_neg,
      zpow_natCast]
    field_simp
  · rename_i hshift
    obtain ⟨k, hk⟩ := Int.eq_ofNat_of_zero_le (show 0 ≤ -shift by omega)
    refine ⟨hden, ?_⟩
    simp only [hk, Int.toNat_natCast, Nat.pow_eq, Nat.cast_mul, Nat.cast_pow,
      Nat.cast_ofNat, zpow_natCast]
    field_simp

/-- A quotient is rounded to the integer that it is close to, and halfway to an even one. -/
theorem halfEven_eq (hd : 0 < d) (hlow : (m : ℚ) - 1 / 2 ≤ n / d) (hhigh : (n : ℚ) / d ≤ m + 1 / 2)
    (htie : m % 2 = 0 ∨ (m : ℚ) - 1 / 2 < n / d ∧ (n : ℚ) / d < m + 1 / 2) : halfEven n d = m := by
  have hd' : (0 : ℚ) < d := by positivity
  rw [le_div_iff₀ hd', lt_div_iff₀ hd', div_lt_iff₀ hd'] at *
  rw [div_le_iff₀ hd'] at hhigh
  have hlow : 2 * (m * d) ≤ 2 * n + d := by
    suffices h : ((2 * (m * d) : Nat) : ℚ) ≤ (2 * n + d : Nat) by exact_mod_cast h
    push_cast
    linarith
  have hhigh : 2 * n ≤ 2 * (m * d) + d := by
    suffices h : ((2 * n : Nat) : ℚ) ≤ (2 * (m * d) + d : Nat) by exact_mod_cast h
    push_cast
    linarith
  have htie : m % 2 = 0 ∨ 2 * (m * d) < 2 * n + d ∧ 2 * n < 2 * (m * d) + d := by
    refine htie.imp_right fun ⟨hlt, hlt'⟩ => ⟨?_, ?_⟩
    · suffices h : ((2 * (m * d) : Nat) : ℚ) < (2 * n + d : Nat) by exact_mod_cast h
      push_cast
      linarith
    · suffices h : ((2 * n : Nat) : ℚ) < (2 * (m * d) + d : Nat) by exact_mod_cast h
      push_cast
      linarith
  have hn : n / d * d + n % d = n := Nat.div_add_mod' n d
  have hrest : n % d < d := Nat.mod_lt n hd
  -- the integer is the quotient or the next one
  have hcases : m = n / d ∨ m = n / d + 1 := by
    have hle : m < n / d + 2 := by
      by_contra h
      have := Nat.mul_le_mul_right d (Nat.not_lt.1 h)
      rw [Nat.add_mul] at this
      omega
    have hge : n / d < m + 1 := by
      by_contra h
      have := Nat.mul_le_mul_right d (Nat.not_lt.1 h)
      rw [Nat.add_mul] at this
      omega
    omega
  unfold halfEven
  dsimp only
  rcases hcases with rfl | rfl
  · split_ifs <;> omega
  · rw [Nat.add_mul] at *
    split_ifs <;> omega

/-! ## The scale of a fraction -/

theorem two_pow_log2_lt (hnum : 0 < num) (hden : 0 < den) :
    (2 : ℚ) ^ ((num.log2 : Int) - den.log2 - 1) < num / den ∧
      (num : ℚ) / den < 2 ^ ((num.log2 : Int) - den.log2 + 1) := by
  have hnum' : ((2 ^ num.log2 : Nat) : ℚ) ≤ num := by
    exact_mod_cast Nat.log2_self_le (Nat.pos_iff_ne_zero.1 hnum)
  have hnum'' : (num : ℚ) < (2 ^ (num.log2 + 1) : Nat) := by exact_mod_cast Nat.lt_log2_self
  have hden' : ((2 ^ den.log2 : Nat) : ℚ) ≤ den := by
    exact_mod_cast Nat.log2_self_le (Nat.pos_iff_ne_zero.1 hden)
  have hden'' : (den : ℚ) < (2 ^ (den.log2 + 1) : Nat) := by exact_mod_cast Nat.lt_log2_self
  push_cast at *
  have hpos : (0 : ℚ) < den := by positivity
  rw [lt_div_iff₀ hpos, div_lt_iff₀ hpos]
  constructor
  · calc (2 : ℚ) ^ ((num.log2 : Int) - den.log2 - 1) * den
      _ < 2 ^ ((num.log2 : Int) - den.log2 - 1) * 2 ^ (den.log2 + 1) := by gcongr
      _ = 2 ^ num.log2 := by
        rw [← zpow_natCast, ← zpow_add₀ two_ne_zero, ← zpow_natCast]
        congr 1
        push_cast
        ring
      _ ≤ num := hnum'
  · calc (num : ℚ)
      _ < 2 ^ (num.log2 + 1) := hnum''
      _ = 2 ^ ((num.log2 : Int) - den.log2 + 1) * 2 ^ den.log2 := by
        rw [← zpow_natCast, ← zpow_natCast, ← zpow_add₀ two_ne_zero]
        congr 1
        push_cast
        ring
      _ ≤ 2 ^ ((num.log2 : Int) - den.log2 + 1) * den := by gcongr

/-- A fraction has at most fifty-three binary digits at its scale, and no fewer unless the scale is
the smallest one. -/
structure ScaledBy (x : ℚ) (scale : Int) : Prop where
  least : -1074 ≤ scale
  lt : x * 2 ^ (-scale) < 2 ^ 53
  le : scale = -1074 ∨ 2 ^ 52 ≤ x * 2 ^ (-scale)

theorem scaledBy_scaleOf (hnum : 0 < num) (hden : 0 < den) :
    ScaledBy ((num : ℚ) / den) (scaleOf num den) := by
  obtain ⟨hgt, hlt⟩ := two_pow_log2_lt hnum hden
  unfold scaleOf
  extract_lets low
  obtain ⟨hpos, hshifted⟩ := shifted_spec num hden low
  have hlow : low = -1074 ∨ low = (num.log2 : Int) - den.log2 - 53 := by omega
  have hlow' : -1074 ≤ low ∧ (num.log2 : Int) - den.log2 - 53 ≤ low := by omega
  generalize low = low at *
  have hfloor : (shifted num den low).1 / (shifted num den low).2 < 2 * leadingBit ↔
      (num : ℚ) / den * 2 ^ (-low) < 2 ^ 53 := by
    have hpos' : (0 : ℚ) < (shifted num den low).2 := by exact_mod_cast hpos
    rw [← hshifted, Nat.div_lt_iff_lt_mul hpos, div_lt_iff₀ hpos']
    unfold leadingBit
    norm_cast
  have hscaled : (num : ℚ) / den * 2 ^ (-low) < 2 ^ 54 := by
    calc (num : ℚ) / den * 2 ^ (-low)
      _ < 2 ^ ((num.log2 : Int) - den.log2 + 1) * 2 ^ (-low) := by gcongr
      _ = 2 ^ ((num.log2 : Int) - den.log2 + 1 - low) := by
        rw [← zpow_add₀ two_ne_zero, sub_eq_add_neg _ low]
      _ ≤ 2 ^ (54 : Int) := zpow_le_zpow_right₀ one_le_two (by omega)
      _ = 2 ^ 54 := by norm_num
  dsimp only
  split
  · rename_i h
    refine ⟨hlow'.1, hfloor.1 h, hlow.imp_right fun hlow => ?_⟩
    calc (2 : ℚ) ^ 52
      _ = 2 ^ ((num.log2 : Int) - den.log2 - 1) * 2 ^ (-low) := by
        rw [← zpow_add₀ two_ne_zero, hlow]
        norm_num
      _ ≤ num / den * 2 ^ (-low) := by gcongr
  · rename_i h
    have hhalf : (num : ℚ) / den * 2 ^ (-(low + 1)) = num / den * 2 ^ (-low) / 2 := by
      rw [neg_add, zpow_add₀ two_ne_zero]
      norm_num
      ring
    have hge : (2 : ℚ) ^ 53 ≤ num / den * 2 ^ (-low) := not_lt.1 (mt hfloor.2 h)
    refine ⟨by omega, ?_, .inr ?_⟩
    · rw [hhalf]
      linarith
    · rw [hhalf]
      linarith

/-! ## Rounding -/

/-- The number is closer to `m * 2 ^ e` than to other numbers of as many binary digits. -/
structure Near (m : Nat) (e : Int) (x : ℚ) : Prop where
  /-- The number below is half as far away if the significand is a power of two. -/
  low : (m : ℚ) - (if m = 2 ^ 52 ∧ -1074 < e then 1 / 4 else 1 / 2) ≤ x * 2 ^ (-e)
  high : x * 2 ^ (-e) ≤ m + 1 / 2
  /-- Halfway between two numbers is closer to the one with an even significand. -/
  tie : m % 2 = 0 ∨ (m : ℚ) - 1 / 2 < x * 2 ^ (-e) ∧ x * 2 ^ (-e) < m + 1 / 2

variable {e k : Int} {x : ℚ}

theorem Near.le (h : Near m e x) : (m : ℚ) - 1 / 2 ≤ x * 2 ^ (-e) := by
  refine le_trans ?_ h.low
  split_ifs <;> linarith

theorem cast_le_of_lt (hm : m < 2 ^ 53) : (m : ℚ) ≤ 2 ^ 53 - 1 := by
  have hcast : ((m + 1 : Nat) : ℚ) ≤ (2 ^ 53 : Nat) := by exact_mod_cast hm
  push_cast at hcast
  linarith

/-- The scale of a fraction is that of the number it is near, or the next smaller one where the
fraction is below a power of two. -/
theorem scale_cases (hx : 0 < x) (hm : m < 2 ^ 53) (he : -1074 ≤ e) (hm' : e = -1074 ∨ 2 ^ 52 ≤ m)
    (hnear : Near m e x) (hk : ScaledBy x k) :
    k = e ∨ k = e - 1 ∧ m = 2 ^ 52 ∧ -1074 < e := by
  have hrescale : x * 2 ^ (-k) = x * 2 ^ (-e) * 2 ^ (e - k) := by
    rw [mul_assoc, ← zpow_add₀ two_ne_zero]
    congr 2
    omega
  have hpos : 0 < x * 2 ^ (-e) := by positivity
  have hle := hnear.le
  have hlt := hk.lt
  rcases lt_trichotomy k e with hless | rfl | hmore
  · right
    have hsmall : (m : ℚ) < 2 ^ 52 + 1 / 2 := by
      have hfactor : (2 : ℚ) ^ (1 : Int) ≤ 2 ^ (e - k) :=
        zpow_le_zpow_right₀ one_le_two (by omega)
      rw [hrescale] at hlt
      nlinarith
    have hleast := hk.least
    have hpower : m = 2 ^ 52 := by
      have hle : m ≤ 2 ^ 52 := by
        by_contra hlarge
        have hlarge : ((2 ^ 52 + 1 : Nat) : ℚ) ≤ m := by exact_mod_cast not_le.1 hlarge
        push_cast at hlarge
        linarith
      omega
    refine ⟨?_, hpower, by omega⟩
    by_contra hne
    have hfactor : (2 : ℚ) ^ (2 : Int) ≤ 2 ^ (e - k) := zpow_le_zpow_right₀ one_le_two (by omega)
    have hlow := hnear.low
    rw [if_pos ⟨hpower, by omega⟩, hpower] at hlow
    push_cast at hlow
    rw [hrescale] at hlt
    nlinarith
  · exact .inl rfl
  · exfalso
    have hge := hk.le.resolve_left (by omega)
    have hfactor : (2 : ℚ) ^ (e - k) ≤ 2 ^ (-1 : Int) := zpow_le_zpow_right₀ one_le_two (by omega)
    have hm := cast_le_of_lt hm
    have hhigh := hnear.high
    rw [hrescale] at hge
    norm_num at hfactor
    nlinarith

/-- **A fraction is rounded to the number that it is near.** -/
theorem roundedMagnitude_eq (hnum : 0 < num) (hden : 0 < den) (hm : m < 2 ^ 53) (he : -1074 ≤ e)
    (hm' : e = -1074 ∨ 2 ^ 52 ≤ m) (hnear : Near m e ((num : ℚ) / den))
    (hfinite : (e + 1074).toNat * leadingBit + m < infinity) :
    roundedMagnitude num den = (e + 1074).toNat * leadingBit + m := by
  have hx : (0 : ℚ) < num / den := by positivity
  have hscale := scaledBy_scaleOf hnum hden
  obtain ⟨hpos, hshifted⟩ := shifted_spec num hden (scaleOf num den)
  unfold roundedMagnitude
  rw [if_neg (Nat.pos_iff_ne_zero.1 hnum)]
  dsimp only
  rcases scale_cases hx hm he hm' hnear hscale with hsame | ⟨hless, rfl, hnormal⟩
  · rw [hsame] at hpos hshifted ⊢
    have hround := halfEven_eq hpos (hshifted ▸ hnear.le) (hshifted ▸ hnear.high)
      (hshifted ▸ hnear.tie)
    rw [hround, Nat.min_eq_right (Nat.le_of_lt hfinite)]
  · have hdouble : (num : ℚ) / den * 2 ^ (-scaleOf num den) = num / den * 2 ^ (-e) * 2 := by
      rw [hless, neg_sub, sub_eq_neg_add, zpow_add₀ two_ne_zero, zpow_one, mul_assoc]
    have hlow := hnear.low
    rw [if_pos ⟨rfl, hnormal⟩] at hlow
    have hlt := hscale.lt
    have hround : halfEven (shifted num den (scaleOf num den)).1
        (shifted num den (scaleOf num den)).2 = 2 ^ 53 := by
      refine halfEven_eq hpos ?_ ?_ (.inl (by decide))
      · rw [hshifted, hdouble]
        push_cast at hlow ⊢
        linarith
      · rw [hshifted]
        push_cast
        linarith
    rw [hround, hless]
    unfold leadingBit infinity leadingBit at *
    omega

end ResourceApi.Double
