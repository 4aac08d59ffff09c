import ResourceApi.Double.Text
import ResourceApi.Proofs.Double.Shortest
import ResourceApi.Proofs.Text.Numeral

/-!
# Written floating point numbers

**Theorem (`Double.float?_compact`, `Double.float?_plain`).** A finite number is read from either of
its written forms. Its digits denote it wherever the point is put and whatever is left to an
exponent, since the value of the decimal stays the same.
-/

namespace ResourceApi

open Text (fixed)
open Text.Numeral

namespace Double

variable {d : Double} {digits : Digits} {cs : List Char} {s : String} {x : ℚ}

/-! ## Numerals of a value -/

/-- The numeral, which has no sign, is for this value. -/
def Writes (cs : List Char) (x : ℚ) : Prop :=
  ∃ whole fraction exponent, IsNumeral cs whole fraction exponent ∧
    valueFrom 0 (whole ++ fraction) * 10 ^ (exponent - fraction.length) = x

theorem pos_of_isNear (hzero : d.isZero = false) (h : d.IsNear x) : 0 < x := by
  have hm : (1 : ℚ) ≤ d.significand := by exact_mod_cast significand_pos hzero
  have hlow := h.le
  have hunit : (0 : ℚ) < 2 ^ (-d.exponent) := by positivity
  by_contra hx
  nlinarith

/-- **A numeral is read as the number that its value is near to.** -/
theorem float?_of_writes (hfinite : d.isFinite = true) (hzero : d.isZero = false)
    (hnear : d.IsNear x)
    (hwrites : Writes cs x) (hs : s.toList = signed d.isNegative cs) : float? s = some d := by
  obtain ⟨whole, fraction, exponent, hnumeral, rfl⟩ := hwrites
  have hdigits : 0 < valueFrom 0 (whole ++ fraction) := by
    refine Nat.pos_of_ne_zero fun h => ?_
    have := pos_of_isNear hzero hnear
    rw [h, Nat.cast_zero, zero_mul] at this
    exact lt_irrefl _ this
  unfold float?
  rw [decimal?_eq hnumeral hs]
  dsimp only [Option.bind_some]
  rw [ofDecimal_eq hfinite hzero hdigits hnear, if_pos hfinite]

/-! ## Layouts -/

theorem toList_digits (h : digits.Denotes d) : digits.toList = fixed digits.count digits.value := by
  rw [← Text.toList_padded h.count_pos h.value_lt, Timestamp.padded, String.toList_ofList]
  rfl

theorem isDigit_of_mem_zeros {k : Nat} {c : Char} (h : c ∈ List.replicate k '0') : c.isDigit :=
  List.eq_of_mem_replicate h ▸ rfl

/-- Zeros behind the digits move the point. -/
theorem mul_zpow_eq {value k : Nat} {e e' : Int} (h : (k : Int) + e = e') :
    ((value * 10 ^ k : Nat) : ℚ) * 10 ^ e = value * 10 ^ e' := by
  have hten : (10 : ℚ) ≠ 0 := by norm_num
  rw [← h, zpow_add₀ hten, zpow_natCast]
  push_cast
  ring

/-- Digits and zeros make a whole number. -/
theorem writes_whole {ds : List Char} {k : Nat} {tail : List Char} {e : Int} (hds : ds ≠ [])
    (hdigits : ∀ c ∈ ds, c.isDigit) (htail : IsExponent tail e) :
    Writes (ds ++ List.replicate k '0' ++ tail) (valueFrom 0 ds * 10 ^ (k + e)) := by
  refine ⟨ds ++ List.replicate k '0', [], e,
    .integer (List.append_ne_nil_of_left_ne_nil hds _) ?_ htail, ?_⟩
  · exact List.forall_mem_append.2 ⟨hdigits, fun c hc => isDigit_of_mem_zeros hc⟩
  · rw [List.append_nil, valueFrom_append_zeros]
    exact mul_zpow_eq (by simp)

/-- Digits before and after the point. -/
theorem writes_pointed {whole fraction tail : List Char} {e : Int} (hwhole : whole ≠ [])
    (hdigits : ∀ c ∈ whole ++ fraction, c.isDigit) (htail : IsExponent tail e) :
    Writes (whole ++ '.' :: (fraction ++ tail))
      (valueFrom 0 (whole ++ fraction) * 10 ^ (e - fraction.length)) :=
  ⟨whole, fraction, e, .pointed hwhole (List.forall_mem_append.1 hdigits).1
    (List.forall_mem_append.1 hdigits).2 htail, rfl⟩

/-- The digits of a number, as they are written. -/
structure Lists (digits : Digits) (ds : List Char) : Prop where
  length : ds.length = digits.count
  ne_nil : ds ≠ []
  isDigit : ∀ c ∈ ds, c.isDigit
  value : valueFrom 0 ds = digits.value

theorem lists_toList (h : digits.Denotes d) : Lists digits digits.toList where
  length := by rw [toList_digits h, Text.length_fixed]
  ne_nil := by
    rw [toList_digits h, ← List.length_pos_iff, Text.length_fixed]
    exact h.count_pos
  isDigit c hc := Text.isDigit_of_mem_fixed (toList_digits h ▸ hc)
  value := by rw [toList_digits h, Text.valueFrom_fixed h.value_lt]

theorem writes_positional (h : digits.Denotes d) {mark : String} (hmark : mark = "" ∨ mark = ".0") :
    Writes (positional digits mark).toList digits.size := by
  obtain ⟨hlength, hne, hdigits, hvalue⟩ := lists_toList h
  have hcount := h.count_pos
  unfold positional Digits.size
  dsimp only
  generalize digits.toList = ds at *
  rw [← hvalue]
  split
  · -- all digits are behind the point
    rename_i hpoint
    have hzeros : ∀ c ∈ ['0'] ++ (List.replicate (-digits.point).toNat '0' ++ ds), c.isDigit :=
      List.forall_mem_append.2 ⟨List.forall_mem_singleton.2 rfl, List.forall_mem_append.2
        ⟨fun c hc => isDigit_of_mem_zeros hc, hdigits⟩⟩
    have hwrites := writes_pointed (List.cons_ne_nil '0' []) hzeros .absent
    have hsum : valueFrom 0 (['0'] ++ (List.replicate (-digits.point).toNat '0' ++ ds)) =
        valueFrom 0 ds := valueFrom_zeros_append _ ds
    have hplace : (0 : Int) - (List.replicate (-digits.point).toNat '0' ++ ds).length =
        digits.point - digits.count := by
      rw [List.length_append, List.length_replicate, hlength]
      omega
    rw [hsum, hplace] at hwrites
    simpa using hwrites
  · split
    · -- all digits are before the point
      rename_i hpoint hwhole
      obtain ⟨k, hk⟩ : ∃ k : Nat, k = digits.point.toNat - digits.count := ⟨_, rfl⟩
      have hplace : (k : Int) = digits.point - digits.count := by omega
      rw [← hk, ← hplace]
      have hzeros : ∀ c ∈ ds ++ List.replicate k '0', c.isDigit :=
        List.forall_mem_append.2 ⟨hdigits, fun c hc => isDigit_of_mem_zeros hc⟩
      rcases hmark with rfl | rfl
      · have hwrites : Writes (ds ++ List.replicate k '0' ++ []) _ := writes_whole hne hdigits .absent
        rw [add_zero] at hwrites
        simpa using hwrites
      · have hwrites : Writes ((ds ++ List.replicate k '0') ++ '.' :: (['0'] ++ [])) _ :=
          writes_pointed (List.append_ne_nil_of_left_ne_nil hne _)
            (List.forall_mem_append.2 ⟨hzeros, List.forall_mem_singleton.2 rfl⟩) .absent
        have hsum : valueFrom 0 (ds ++ List.replicate k '0' ++ ['0']) =
            valueFrom 0 ds * 10 ^ (k + 1) := by
          rw [List.append_assoc, ← List.replicate_succ', valueFrom_append_zeros]
        have hshift : ((k + 1 : Nat) : Int) + (0 - (['0'] : List Char).length) = k := by
          simp
        rw [hsum, mul_zpow_eq hshift] at hwrites
        simpa using hwrites
    · -- the point is among the digits
      rename_i hpoint hwhole
      have hwrites : Writes (ds.take digits.point.toNat ++
          '.' :: (ds.drop digits.point.toNat ++ []))
          (valueFrom 0 (ds.take digits.point.toNat ++ ds.drop digits.point.toNat) *
            10 ^ (0 - ((ds.drop digits.point.toNat).length : Int))) := by
        refine writes_pointed ?_ ?_ .absent
        · rw [← List.length_pos_iff, List.length_take]
          omega
        · rw [List.take_append_drop]
          exact hdigits
      have hplace : (0 : Int) - (ds.drop digits.point.toNat).length =
          digits.point - digits.count := by
        rw [List.length_drop, hlength]
        omega
      rw [List.take_append_drop, hplace] at hwrites
      simpa using hwrites

/-- The exponent has its sign written, a plus sign too. -/
theorem isExponent_written (point : Int) :
    IsExponent ((if point ≤ 0 then "e" else "e+") ++ toString (point - 1)).toList (point - 1) := by
  have htext : ((if point ≤ 0 then "e" else "e+") ++ toString (point - 1)).toList =
      'e' :: (if decide (point ≤ 0) then '-' else '+') :: Nat.toDigits 10 (point - 1).natAbs := by
    have hsign : decide (point - 1 < 0) = decide (point ≤ 0) := decide_eq_decide.2 (by omega)
    rw [String.toList_append, toList_toString_int, hsign]
    by_cases hpoint : point ≤ 0
    · rw [if_pos hpoint, decide_eq_true hpoint]
      rfl
    · rw [if_neg hpoint, decide_eq_false hpoint]
      rfl
  rw [htext]
  refine .written ?_
  rw [exponent?_signed]
  congr 1
  simp only [decide_eq_true_eq]
  split <;> omega

theorem writes_scientific (h : digits.Denotes d) :
    Writes (scientific digits "" ++ (if digits.point ≤ 0 then "e" else "e+") ++
      toString (digits.point - 1)).toList digits.size := by
  obtain ⟨hlength, hne, hdigits, hvalue⟩ := lists_toList h
  have htail := isExponent_written digits.point
  rw [String.append_assoc, String.toList_append]
  generalize ((if digits.point ≤ 0 then "e" else "e+") ++ toString (digits.point - 1)).toList = tail
    at *
  unfold scientific Digits.size
  generalize digits.toList = ds at *
  rw [← hvalue, ← hlength]
  match ds, hne with
  | [first], hne =>
    have hwrites : Writes ([first] ++ List.replicate 0 '0' ++ tail) _ :=
      writes_whole hne hdigits htail
    have hplace : ((0 : Nat) : Int) + (digits.point - 1) =
        digits.point - ([first] : List Char).length := by
      simp
    rw [hplace] at hwrites
    simpa using hwrites
  | first :: second :: rest, _ =>
    have hwrites : Writes ([first] ++ '.' :: (second :: rest ++ tail)) _ :=
      writes_pointed (List.cons_ne_nil first []) hdigits htail
    have hplace : digits.point - 1 - (second :: rest).length =
        digits.point - (first :: second :: rest).length := by
      simp only [List.length_cons]
      omega
    rw [hplace] at hwrites
    simpa using hwrites

/-! ## Both written forms -/

theorem toList_signText_append (d : Double) (text : String) :
    (d.signText ++ text).toList = signed d.isNegative text.toList := by
  rw [String.toList_append]
  unfold signText signed
  split <;> rfl

/-- A numeral of zero is read as the zero of its sign. -/
theorem float?_of_isZero (hzero : d.isZero = true) (hs : s.toList = signed d.isNegative cs)
    (hwrites : Writes cs 0) : float? s = some d := by
  have hmagnitude : d.magnitude = 0 := by simpa [isZero] using hzero
  have hself : ofMagnitude d.isNegative 0 = d := by
    rw [← hmagnitude]
    exact d.ofMagnitude_self
  have hfinite : d.isFinite = true := by
    unfold isFinite
    rw [hmagnitude]
    rfl
  obtain ⟨whole, fraction, exponent, hnumeral, hvalue⟩ := hwrites
  have hdigits : valueFrom 0 (whole ++ fraction) = 0 := by
    have hpower : (10 : ℚ) ^ (exponent - fraction.length) ≠ 0 := zpow_ne_zero _ (by norm_num)
    exact_mod_cast (mul_eq_zero.1 hvalue).resolve_right hpower
  unfold float?
  rw [decimal?_eq hnumeral hs]
  dsimp only [Option.bind_some]
  rw [hdigits, ofDecimal_zero, hself, if_pos hfinite]

theorem writes_zero : Writes "0".toList 0 ∧ Writes "0.0".toList 0 := by
  have hone : ['0'] ≠ [] := List.cons_ne_nil '0' []
  have hdigit : ∀ c ∈ ['0'], c.isDigit := List.forall_mem_singleton.2 rfl
  have hplain : IsNumeral (['0'] ++ []) ['0'] [] 0 := .integer hone hdigit .absent
  have hpointed : IsNumeral (['0'] ++ '.' :: (['0'] ++ [])) ['0'] ['0'] 0 :=
    .pointed hone hdigit hdigit .absent
  have hvalue : valueFrom 0 (['0'] ++ []) = 0 ∧ valueFrom 0 (['0'] ++ ['0']) = 0 := ⟨rfl, rfl⟩
  exact ⟨⟨_, _, _, hplain, by rw [hvalue.1, Nat.cast_zero, zero_mul]⟩,
    ⟨_, _, _, hpointed, by rw [hvalue.2, Nat.cast_zero, zero_mul]⟩⟩

/-- **A number is read from its JSON text.** -/
theorem float?_compact (hfinite : d.isFinite = true) : float? d.compact = some d := by
  have hs := toList_signText_append d
  unfold compact
  by_cases hzero : d.isZero = true
  · rw [if_pos hzero]
    exact float?_of_isZero hzero (hs _) writes_zero.2
  · rw [if_neg hzero]
    rw [Bool.not_eq_true] at hzero
    have hdenotes := denotes_shortest hzero
    dsimp only
    split
    · exact float?_of_writes hfinite hzero hdenotes.near
        (writes_positional hdenotes (.inr rfl)) (hs _)
    · exact float?_of_writes hfinite hzero hdenotes.near (writes_scientific hdenotes) (hs _)

/-- **A number is read from its plain text.** -/
theorem float?_plain (hfinite : d.isFinite = true) : float? d.plain = some d := by
  have hs := toList_signText_append d
  unfold plain
  by_cases hzero : d.isZero = true
  · rw [if_pos hzero]
    exact float?_of_isZero hzero (hs _) writes_zero.1
  · rw [if_neg hzero]
    rw [Bool.not_eq_true] at hzero
    have hdenotes := denotes_shortest hzero
    exact float?_of_writes hfinite hzero hdenotes.near (writes_positional hdenotes (.inl rfl)) (hs _)

end Double

end ResourceApi
