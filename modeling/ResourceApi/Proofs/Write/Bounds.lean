import ResourceApi.Proofs.Double.Monotone
import ResourceApi.Proofs.Write.Admitted

/-!
# Bounds of integers

The bounds of an attribute are floating point numbers. An integer is rounded to one before it is
compared with them.

**Theorem (`Attribute.coerce_bounded`).** A number is accepted for an integer attribute exactly if
it denotes an integer of 64 bits that is within the bounds, or that is rounded to the bound it is
beyond. So the bounds are exact for integers that are written as floating point numbers and for
those of at most fifty-three binary digits.

Rounding never carries an integer past a bound (`Double.ofInt_le`, `Double.le_ofInt`), so nothing
within the bounds is refused.
-/

namespace ResourceApi

open ResourceApi.Text.Numeral (minInt maxInt)

/-- The rational number that a JSON number denotes. -/
def Json.number? : Json → Option ℚ
  | .int i => some i
  | .float d => some d.value
  | _ => none

theorem Double.lt_eq_false_iff {x y : Double} : x.lt y = false ↔ y.value ≤ x.value := by
  rw [← not_lt, ← Double.rank_lt_iff]
  simp [Double.lt]

theorem Double.toInt?_eq_some_iff {d : Double} (hfinite : d.isFinite = true) {i : Int} :
    d.toInt? = some i ↔ d.value = i := by
  constructor
  · intro h
    have hsame := compareInt_of_toInt? h
    rw [compareInt_eq, compare_eq_iff_eq] at hsame
    exact hsame.symm
  · intro h
    obtain ⟨hden, hsize⟩ := d.ratio_spec
    have hden' : (d.ratio.2 : ℚ) ≠ 0 := by positivity
    have hnonneg := d.size_nonneg
    have hvalue := d.value_eq
    rw [h] at hvalue
    have habs : d.size = i.natAbs := by
      rw [Nat.cast_natAbs, Int.cast_abs, hvalue]
      split
      · rw [abs_neg, abs_of_nonneg hnonneg]
      · rw [abs_of_nonneg hnonneg]
    have hnum : d.ratio.1 = i.natAbs * d.ratio.2 := by
      rw [habs, div_eq_iff hden'] at hsize
      exact_mod_cast hsize
    have hquotient : d.ratio.1 / d.ratio.2 = i.natAbs := by rw [hnum, Nat.mul_div_cancel _ hden]
    have hrest : d.ratio.1 % d.ratio.2 = 0 := by rw [hnum, Nat.mul_mod_left]
    unfold toInt?
    dsimp only
    rw [hrest, hfinite, hquotient]
    simp only [beq_self_eq_true, Bool.and_self, if_true]
    congr 1
    rw [habs] at hvalue
    split at hvalue
    · rename_i hnegative
      rw [if_pos hnegative]
      exact_mod_cast hvalue.symm
    · rename_i hnegative
      have hpositive : (0 : ℚ) ≤ i := hvalue ▸ Nat.cast_nonneg _
      have : 0 ≤ i := by exact_mod_cast hpositive
      rw [if_neg hnegative]
      omega

namespace Attribute

variable {a : Attribute} {v written : Json} {i : Int}

/-- The bounds are finite. -/
structure FiniteBounds (a : Attribute) : Prop where
  min : ∀ min, a.min = some min → min.isFinite = true
  max : ∀ max, a.max = some max → max.isFinite = true

/-- The number is within the bounds. -/
structure Bounds (a : Attribute) (x : ℚ) : Prop where
  min : ∀ min, a.min = some min → min.value ≤ x
  max : ∀ max, a.max = some max → x ≤ max.value

/-- The integer is within the bounds, or is rounded to the bound that it is beyond. -/
structure BoundsRounded (a : Attribute) (i : Int) : Prop where
  min : ∀ min, a.min = some min → min.value ≤ i ∨ (Double.ofInt i).value = min.value
  max : ∀ max, a.max = some max → i ≤ max.value ∨ (Double.ofInt i).value = max.value

theorem Bounds.rounded (h : a.Bounds i) : a.BoundsRounded i where
  min min hmin := .inl (h.min min hmin)
  max max hmax := .inl (h.max max hmax)

/-- Where rounding changes nothing, the bounds are exact. -/
theorem boundsRounded_iff (h : (Double.ofInt i).value = i) : a.BoundsRounded i ↔ a.Bounds i := by
  refine ⟨fun hrounded => ⟨fun min hmin => ?_, fun max hmax => ?_⟩, Bounds.rounded⟩
  · rcases hrounded.min min hmin with hle | hsame
    · exact hle
    · rw [← hsame, h]
  · rcases hrounded.max max hmax with hle | hsame
    · exact hle
    · rw [← hsame, h]

/-- The rounded integer is compared with the bounds. -/
theorem inRange_ofInt_iff (hb : a.FiniteBounds) :
    a.InRange (.ofInt i) ↔ a.BoundsRounded i := by
  constructor
  · intro h
    refine ⟨fun min hmin => ?_, fun max hmax => ?_⟩
    · rcases le_or_gt min.value i with hle | hgt
      · exact .inl hle
      · have hround := Double.ofInt_le (hb.min min hmin) hgt.le
        exact .inr (le_antisymm hround (Double.lt_eq_false_iff.1 (h.min min hmin)))
    · rcases le_or_gt (i : ℚ) max.value with hle | hgt
      · exact .inl hle
      · have hround := Double.le_ofInt (hb.max max hmax) hgt.le
        exact .inr (le_antisymm (Double.lt_eq_false_iff.1 (h.max max hmax)) hround)
  · intro h
    constructor
    · intro min hmin
      apply Double.lt_eq_false_iff.2
      rcases h.min min hmin with hle | hsame
      · exact Double.le_ofInt (hb.min min hmin) hle
      · exact hsame.ge
    · intro max hmax
      apply Double.lt_eq_false_iff.2
      rcases h.max max hmax with hle | hsame
      · exact Double.ofInt_le (hb.max max hmax) hle
      · exact hsame.le

/-- A number is taken for the integer that it denotes, if that has 64 bits. -/
theorem integer?_eq_some_iff (hr : v.IsRanged) :
    integer? v = some i ↔ v.number? = some (i : ℚ) ∧ minInt ≤ i ∧ i ≤ maxInt := by
  cases v with
  | int j =>
    unfold integer? Json.number?
    rw [Option.ite_none_right_eq_some, Option.some.injEq, Option.some.injEq, Int.cast_inj]
    constructor
    · rintro ⟨hmax, rfl⟩
      exact ⟨rfl, hr.1, hmax⟩
    · rintro ⟨rfl, -, hmax⟩
      exact ⟨hmax, rfl⟩
  | float d =>
    unfold integer? Json.number?
    rw [Option.filter_eq_some_iff, Double.toInt?_eq_some_iff hr, Option.some.injEq,
      Bool.and_eq_true, decide_eq_true_eq, decide_eq_true_eq]
  | _ =>
    unfold integer? Json.number?
    simp

theorem coerce_integer (htype : a.type = .integer) :
    a.coerce v = .ok written ↔
      ∃ i, written = .int i ∧ integer? v = some i ∧ a.InRange (.ofInt i) := by
  unfold coerce
  rw [htype]
  dsimp only
  cases hi : integer? v with
  | none => simp
  | some i =>
    dsimp only
    rw [bind_eq_ok]
    constructor
    · rintro ⟨⟨⟩, hrange, h⟩
      exact ⟨i, (pure_eq_ok.1 h).symm, rfl, checkRange_eq_ok.1 hrange⟩
    · rintro ⟨i, rfl, hsame, hrange⟩
      obtain rfl := Option.some.inj hsame
      exact ⟨(), checkRange_eq_ok.2 hrange, rfl⟩

/-- **The bounds of an integer attribute are exact, up to the rounding of large integers.** -/
theorem coerce_bounded (htype : a.type = .integer) (hb : a.FiniteBounds) (hr : v.IsRanged)
    (written : Json) :
    (a.coerce v = .ok written ↔ ∃ i : Int, written = .int i ∧ v.number? = some (i : ℚ) ∧
      minInt ≤ i ∧ i ≤ maxInt ∧ a.BoundsRounded i) ∧
    ((∀ i, v = .int i → i.natAbs ≤ 2 ^ 53) →
      (a.coerce v = .ok written ↔ ∃ i : Int, written = .int i ∧ v.number? = some (i : ℚ) ∧
        minInt ≤ i ∧ i ≤ maxInt ∧ a.Bounds i)) := by
  have haccepted : a.coerce v = .ok written ↔ ∃ i : Int, written = .int i ∧
      v.number? = some (i : ℚ) ∧ minInt ≤ i ∧ i ≤ maxInt ∧ a.BoundsRounded i := by
    simp only [coerce_integer htype, integer?_eq_some_iff hr, inRange_ofInt_iff hb, and_assoc]
  refine ⟨haccepted, fun hsmall => haccepted.trans ?_⟩
  refine exists_congr fun i => and_congr_right fun _ => and_congr_right fun hnumber =>
    and_congr_right fun _ => and_congr_right fun _ => boundsRounded_iff ?_
  unfold Json.number? at hnumber
  split at hnumber
  · rename_i j
    obtain rfl : j = i := by exact_mod_cast Option.some.inj hnumber
    exact Double.ofInt_small (hsmall j rfl)
  · exact Double.ofInt_eq hr (Option.some.inj hnumber)
  · cases hnumber

/-! ## A bound that is rounded to -/

/-- At least one seat, and at most as many as fifty-three binary digits can tell apart. -/
def seats : Attribute where
  name := "n"
  type := .integer
  min := some ⟨0x3ff0000000000000⟩
  max := some ⟨0x4340000000000000⟩

theorem finiteBounds_seats : seats.FiniteBounds where
  min := by
    intro min h
    obtain rfl := Option.some.inj h
    decide
  max := by
    intro max h
    obtain rfl := Option.some.inj h
    decide

/-- Three seats are accepted from a floating point number. -/
theorem coerce_seats : seats.type = .integer ∧ seats.FiniteBounds ∧
    (Json.float ⟨0x4008000000000000⟩).IsRanged ∧
    seats.coerce (.float ⟨0x4008000000000000⟩) = .ok (.int 3) ∧ seats.Bounds 3 := by
  have hr : (Json.float ⟨0x4008000000000000⟩).IsRanged := by decide
  have hcoerced : seats.coerce (.float ⟨0x4008000000000000⟩) = .ok (.int 3) := by decide +kernel
  have hexact := (coerce_bounded rfl finiteBounds_seats hr (.int 3)).2 nofun
  obtain ⟨i, hi, -, -, -, hbounds⟩ := hexact.1 hcoerced
  obtain rfl := Json.int.inj hi
  exact ⟨rfl, finiteBounds_seats, hr, hcoerced, hbounds⟩

/-- **One seat more than the bound is accepted**: it is rounded to the bound. -/
theorem coerce_past_bound : ¬ ∀ (a : Attribute) (v written : Json), a.type = .integer →
    a.FiniteBounds → v.IsRanged →
      (a.coerce v = .ok written ↔ ∃ i : Int, written = .int i ∧ v.number? = some (i : ℚ) ∧
        minInt ≤ i ∧ i ≤ maxInt ∧ a.Bounds i) := by
  intro h
  have hcoerced : seats.coerce (.int 9007199254740993) = .ok (.int 9007199254740993) := by
    decide +kernel
  obtain ⟨i, hi, -, -, -, hbounds⟩ :=
    (h seats (.int 9007199254740993) _ rfl finiteBounds_seats (by decide)).1 hcoerced
  obtain rfl := Json.int.inj hi
  have hmax : (⟨0x4340000000000000⟩ : Double).value = 9007199254740992 := by
    have hratio : (⟨0x4340000000000000⟩ : Double).signedRatio = (9007199254740992, 1) := by
      decide +kernel
    rw [Double.value, hratio]
    norm_num
  have hle := hbounds.max _ rfl
  rw [hmax] at hle
  norm_num at hle

end Attribute

end ResourceApi
