import Mathlib.Algebra.Group.Int.Defs
import Mathlib.Algebra.Group.Nat.Defs
import ResourceApi.Coercion
import ResourceApi.Proofs.Result
import ResourceApi.Sql.Compare

/-!
# Values through columns

A value that is brought to the type of an attribute goes into the column of the attribute and is read
back by the column's type.

**Theorem (`Attribute.readsBack_of_coerce`).** It is read back as it was, but that a zero loses its
sign. The numbers of JSON are meant: integers of 64 bits, signed or not, and finite floating point
numbers. An integer of that size is rounded to a finite number (`Double.isFinite_ofInt`), where the
attribute holds floating point numbers.
-/

namespace ResourceApi

/-! ## Finite numbers -/

namespace Double

theorem magnitude_ofMagnitude {m : Nat} (negative : Bool) (h : m < signBit) :
    (ofMagnitude negative m).magnitude = m := by
  unfold ofMagnitude magnitude
  rw [UInt64.toNat_ofNat']
  unfold signBit at *
  split <;> omega

/-- An integer of 64 bits is scaled by less than twelve binary places, to a quotient of at most
fifty-four bits. -/
theorem shifted_scaleOf {n : Nat} (hn : n < 2 ^ 64) : scaleOf n 1 ≤ 11 ∧
    (shifted n 1 (scaleOf n 1)).1 / (shifted n 1 (scaleOf n 1)).2 < 2 ^ 54 := by
  have hlog : n < 2 ^ (n.log2 + 1) := Nat.lt_log2_self
  have hsmall : n.log2 < 64 := by
    by_cases h : n = 0
    · simp [h]
    · exact (Nat.log2_lt h).2 hn
  have hscale : (n.log2 : Int) - 53 ≤ scaleOf n 1 ∧ scaleOf n 1 ≤ 11 := by
    have hone : Nat.log2 1 = 0 := by decide
    unfold scaleOf
    rw [hone]
    dsimp only
    split <;> omega
  refine ⟨hscale.2, ?_⟩
  generalize scaleOf n 1 = scale at hscale
  unfold shifted
  split
  · refine Nat.div_lt_of_lt_mul (Nat.lt_of_lt_of_le hlog ?_)
    show 2 ^ (n.log2 + 1) ≤ 1 * 2 ^ scale.toNat * 2 ^ 54
    rw [Nat.one_mul, ← Nat.pow_add]
    exact Nat.pow_le_pow_right Nat.two_pos (by omega)
  · show n * 2 ^ (-scale).toNat / 1 < 2 ^ 54
    have hle : 2 ^ (n.log2 + 1) * 2 ^ (-scale).toNat ≤ 2 ^ 54 := by
      rw [← Nat.pow_add]
      exact Nat.pow_le_pow_right Nat.two_pos (by omega)
    rw [Nat.div_one]
    exact Nat.lt_of_lt_of_le (Nat.mul_lt_mul_of_pos_right hlog (Nat.two_pow_pos _)) hle

/-- **An integer of 64 bits is rounded to a finite number.** -/
theorem isFinite_ofInt {i : Int} (h : i.natAbs < 2 ^ 64) : (ofInt i).isFinite = true := by
  have hfinite : roundedMagnitude i.natAbs 1 < infinity := by
    obtain ⟨hscale, hquotient⟩ := shifted_scaleOf h
    unfold roundedMagnitude
    split
    · decide
    · have hround : halfEven (shifted i.natAbs 1 (scaleOf i.natAbs 1)).1
          (shifted i.natAbs 1 (scaleOf i.natAbs 1)).2 ≤ 2 ^ 54 := by
        unfold halfEven
        dsimp only
        split
        · omega
        · split <;> omega
      unfold infinity leadingBit
      dsimp only
      omega
  have hbelow : infinity < signBit := by decide
  unfold isFinite ofInt ofRatio
  rw [magnitude_ofMagnitude _ (Nat.lt_trans hfinite hbelow)]
  exact decide_eq_true hfinite

/-- A zero has one sign or the other. -/
theorem eq_of_isZero {d : Double} (h : d.isZero = true) : d = zero ∨ d = zero.neg := by
  have hbits : d.bits.toNat % signBit = 0 := by simpa [isZero, magnitude] using h
  have hlt : d.bits.toNat < 2 ^ 64 := d.bits.toNat_lt
  have hzero : d.bits.toNat = 0 ∨ d.bits.toNat = signBit := by
    unfold signBit at *
    omega
  have hof (b : UInt64) (hb : d.bits.toNat = b.toNat) : d = ⟨b⟩ := by
    obtain ⟨bits⟩ := d
    exact congrArg Double.mk (UInt64.toNat_inj.1 hb)
  exact hzero.imp (hof 0 ·) (hof 0x8000000000000000 ·)

end Double

/-! ## Values that are read back -/

namespace Json

/-- The numbers of JSON are integers of 64 bits, signed or not, and finite floating point
numbers. -/
def IsRanged : Json → Prop
  | int i => Text.Numeral.minInt ≤ i ∧ i < 2 ^ 64
  | float d => d.isFinite = true
  | _ => True

instance (value : Json) : Decidable value.IsRanged := by
  unfold IsRanged
  split <;> infer_instance

/-- What was written is read as it was, but a zero without its sign. -/
def ReadsBack (written read : Json) : Prop :=
  read = written ∨ written = .float Double.zero.neg ∧ read = .float .zero

end Json

namespace Attribute

variable {a : Attribute} {value written : Json}

/-- What the column of the attribute gives back of a value. -/
def readBack (a : Attribute) (value : Json) : Json :=
  ((Affinity.ofAttribute a.type).store (.ofJson value)).toJson (.ofAttribute a.type)

theorem readBack_null (a : Attribute) : a.readBack .null = .null := by
  unfold readBack
  cases a.type <;> rfl

theorem readBack_str {s : String} (h : Affinity.ofAttribute a.type = .text) :
    a.readBack (.str s) = .str s := by
  unfold readBack
  rw [h]
  rfl

theorem readBack_int {i : Int} (h : a.type = .integer) (hi : i ≤ Text.Numeral.maxInt) :
    a.readBack (.int i) = .int i := by
  have hstored : SqlValue.ofJson (.int i) = .integer i := if_pos hi
  unfold readBack
  rw [h, hstored]
  rfl

theorem readBack_bool {b : Bool} (h : a.type = .boolean) : a.readBack (.bool b) = .bool b := by
  unfold readBack
  rw [h]
  cases b <;> rfl

theorem readsBack_float {d : Double} (h : a.type = .float) (hd : d.isFinite = true) :
    (Json.float d).ReadsBack (a.readBack (.float d)) := by
  have hread : a.readBack (.float d) = SqlValue.ofDouble (if d.isZero then .zero else d) := by
    unfold readBack
    rw [h]
    rfl
  rw [hread]
  split
  · rename_i hzero
    rcases Double.eq_of_isZero hzero with rfl | rfl
    · exact .inl rfl
    · exact .inr ⟨rfl, rfl⟩
  · exact .inl (if_pos hd)

theorem integer?_le {i : Int} (h : integer? value = some i) : i ≤ Text.Numeral.maxInt := by
  unfold integer? at h
  split at h
  · split at h
    · obtain rfl := Option.some.inj h
      assumption
    · cases h
  · have hbounds := (Option.filter_eq_some_iff.1 h).2
    simp only [Bool.and_eq_true, decide_eq_true_eq] at hbounds
    exact hbounds.2
  · cases h

theorem isFinite_of_float? {d : Double} (hr : value.IsRanged) (h : float? value = some d) :
    d.isFinite = true := by
  unfold float? at h
  split at h
  · rename_i i
    obtain rfl := Option.some.inj h
    obtain ⟨hmin, hmax⟩ := hr
    unfold Text.Numeral.minInt at hmin
    exact Double.isFinite_ofInt (by omega)
  · obtain rfl := Option.some.inj h
    exact hr
  · cases h

/-- **Coerced values are read back.** -/
theorem readsBack_of_coerce (hr : value.IsRanged) (h : a.coerce value = .ok written) :
    written.ReadsBack (a.readBack written) := by
  have htext {type : AttributeType} {s : String} (htype : a.type = type)
      (haffinity : Affinity.ofAttribute type = .text) :
      (Json.str s).ReadsBack (a.readBack (.str s)) :=
    .inl (readBack_str (htype ▸ haffinity))
  unfold coerce at h
  dsimp only at h
  split at h
  case h_1 htype | h_2 htype =>
    obtain ⟨⟨⟩, -, h⟩ := bind_eq_ok.1 h
    obtain rfl := pure_eq_ok.1 h
    exact htext htype rfl
  case h_3 htype =>
    split at h
    · cases h
    · rename_i i hi
      obtain ⟨⟨⟩, -, h⟩ := bind_eq_ok.1 h
      obtain rfl := pure_eq_ok.1 h
      exact .inl (readBack_int htype (integer?_le hi))
  case h_4 htype =>
    split at h
    · cases h
    · rename_i d hd
      obtain ⟨⟨⟩, -, h⟩ := bind_eq_ok.1 h
      obtain rfl := pure_eq_ok.1 h
      exact readsBack_float htype (isFinite_of_float? hr hd)
  case h_5 htype =>
    obtain rfl := pure_eq_ok.1 h
    exact .inl (readBack_bool htype)
  case h_6 htype | h_7 htype | h_8 htype =>
    split at h
    · obtain rfl := pure_eq_ok.1 h
      exact htext htype rfl
    · cases h
  case h_9 => cases h

end Attribute

end ResourceApi
