import Mathlib.Algebra.Group.Nat.Defs
import Mathlib.Data.List.Forall2
import Mathlib.Data.List.TakeWhile
import Mathlib.Tactic.Tauto
import ResourceApi.Timestamp

/-!
# Numbers of fixed width

A number is padded with zeros to a width that holds it. Texts that consist of such numbers, each
with a character behind it, are ordered as their numbers are (`Text.rowOf_lt_rowOf_iff`), and the
numbers are read from them (`Timestamp.number_fixed`).
-/

namespace ResourceApi

namespace Text

/-! ## Digits -/

/-- The last digits of a number. -/
def fixed : Nat → Nat → List Char
  | 0, _ => []
  | width + 1, n => fixed width (n / 10) ++ [Nat.digitChar (n % 10)]

variable {width m n : Nat}

@[simp] theorem length_fixed (width n : Nat) : (fixed width n).length = width := by
  induction width generalizing n with
  | zero => rfl
  | succ width ih => rw [fixed, List.length_append, ih, List.length_singleton]

theorem digitValue_digitChar {d : Nat} (h : d < 10) : Numeral.digitValue (Nat.digitChar d) = d := by
  rw [Numeral.digitValue, Nat.toNat_digitChar_of_lt_ten h]
  exact Nat.add_sub_cancel_left 48 d

theorem isDigit_digitChar {d : Nat} (h : d < 10) : (Nat.digitChar d).isDigit := by
  refine Nat.isDigit_of_mem_toDigits (n := d) (b := 10) (by decide) (by decide) ?_
  rw [Nat.toDigits_of_lt_base h]
  exact List.mem_cons_self

theorem isDigit_of_mem_fixed {c : Char} (h : c ∈ fixed width n) : c.isDigit := by
  induction width generalizing n with
  | zero => cases h
  | succ width ih =>
    rcases List.mem_append.1 h with h | h
    · exact ih h
    · obtain rfl := List.mem_singleton.1 h
      exact isDigit_digitChar (Nat.mod_lt n (by decide))

theorem valueFrom_append (start : Nat) (cs ds : List Char) :
    Numeral.valueFrom start (cs ++ ds) = Numeral.valueFrom (Numeral.valueFrom start cs) ds :=
  List.foldl_append

/-- The digits of a number that fits the width have it as their value. -/
theorem valueFrom_fixed (h : n < 10 ^ width) : Numeral.valueFrom 0 (fixed width n) = n := by
  induction width generalizing n with
  | zero =>
    obtain rfl : n = 0 := by simpa using h
    rfl
  | succ width ih =>
    have hrest : n / 10 < 10 ^ width := Nat.div_lt_of_lt_mul (by rwa [← Nat.pow_succ'])
    rw [fixed, valueFrom_append, ih hrest]
    show 10 * (n / 10) + Numeral.digitValue (Nat.digitChar (n % 10)) = n
    rw [digitValue_digitChar (Nat.mod_lt n (by decide))]
    exact Nat.div_add_mod n 10

theorem fixed_zero (width : Nat) : fixed width 0 = List.replicate width '0' := by
  induction width with
  | zero => rfl
  | succ width ih =>
    rw [fixed, Nat.zero_div, ih, List.replicate_succ']
    rfl

/-- Padding yields the digits, where there is room for them. -/
theorem toList_padded (hw : 0 < width) (h : n < 10 ^ width) :
    (Timestamp.padded width n).toList = fixed width n := by
  rw [Timestamp.padded, String.toList_ofList]
  induction width generalizing n with
  | zero => cases hw
  | succ width ih =>
    by_cases hn : n < 10
    · rw [Nat.toDigits_of_lt_base hn, fixed, Nat.div_eq_of_lt hn, fixed_zero, Nat.mod_eq_of_lt hn]
      rfl
    · have hbase : 10 ≤ n := Nat.le_of_not_lt hn
      have hrest : n / 10 < 10 ^ width := Nat.div_lt_of_lt_mul (by rwa [← Nat.pow_succ'])
      have hwidth : 0 < width := by
        rcases Nat.eq_zero_or_pos width with rfl | hwidth
        · exact absurd (by simpa using h) hn
        · exact hwidth
      rw [Nat.toDigits_of_base_le (by decide) hbase, fixed, ← ih hwidth hrest, List.length_append,
        List.length_singleton, Nat.add_sub_add_right, List.append_assoc]

/-! ## Order -/

/-- Texts with beginnings of one length. -/
theorem append_lt_append_iff {α : Type} [LT α] {a b x y : List α} (h : a.length = b.length) :
    a ++ x < b ++ y ↔ a < b ∨ a = b ∧ x < y := by
  induction a generalizing b with
  | nil =>
    obtain rfl := List.length_eq_zero_iff.1 h.symm
    simp
  | cons c a ih =>
    cases b with
    | nil => cases h
    | cons d b =>
      rw [List.cons_append, List.cons_append, List.cons_lt_cons_iff, List.cons_lt_cons_iff,
        ih (Nat.succ.inj h), List.cons.injEq]
      tauto

theorem fixed_inj (hm : m < 10 ^ width) (hn : n < 10 ^ width) :
    fixed width m = fixed width n ↔ m = n := by
  constructor
  · intro h
    rw [← valueFrom_fixed hm, h, valueFrom_fixed hn]
  · rintro rfl
    rfl

theorem digitChar_lt_digitChar_iff {d e : Nat} (hd : d < 10) (he : e < 10) :
    Nat.digitChar d < Nat.digitChar e ↔ d < e := by
  rw [Char.lt_def, UInt32.lt_iff_toNat_lt]
  show (Nat.digitChar d).toNat < (Nat.digitChar e).toNat ↔ d < e
  rw [Nat.toNat_digitChar_of_lt_ten hd, Nat.toNat_digitChar_of_lt_ten he]
  omega

/-- The digits of numbers of one width are ordered as the numbers are. -/
theorem fixed_lt_fixed_iff (hm : m < 10 ^ width) (hn : n < 10 ^ width) :
    fixed width m < fixed width n ↔ m < n := by
  induction width generalizing m n with
  | zero =>
    have : m = n := by
      rw [Nat.pow_zero] at hm hn
      omega
    simp [fixed, this]
  | succ width ih =>
    rw [Nat.pow_succ'] at hm hn
    have hm' : m / 10 < 10 ^ width := Nat.div_lt_of_lt_mul hm
    have hn' : n / 10 < 10 ^ width := Nat.div_lt_of_lt_mul hn
    rw [fixed, fixed, append_lt_append_iff (by simp), ih hm' hn', fixed_inj hm' hn',
      List.cons_lt_cons_iff, digitChar_lt_digitChar_iff (Nat.mod_lt _ (by decide))
        (Nat.mod_lt _ (by decide))]
    simp only [List.lt_irrefl, and_false, or_false]
    omega

/-! ## Rows of numbers -/

/-- A number of some width with a character behind it, for each entry of a layout. -/
def rowOf : List (Nat × Char) → List Nat → List Char
  | (width, mark) :: layout, n :: numbers => fixed width n ++ mark :: rowOf layout numbers
  | _, _ => []

/-- There is a number for each entry of a layout, and it is not too long. -/
def Fits (layout : List (Nat × Char)) (numbers : List Nat) : Prop :=
  List.Forall₂ (fun entry n => n < 10 ^ entry.1) layout numbers

/-- **Rows of one layout are ordered as their numbers are.** -/
theorem rowOf_lt_rowOf_iff {layout : List (Nat × Char)} {ms ns : List Nat} (hm : Fits layout ms)
    (hn : Fits layout ns) : rowOf layout ms < rowOf layout ns ↔ ms < ns := by
  induction hm generalizing ns with
  | nil =>
    cases hn
    simp
  | cons h _ ih =>
    obtain _ | ⟨h', hrest⟩ := hn
    rw [rowOf, rowOf, append_lt_append_iff (by simp), fixed_lt_fixed_iff h h', fixed_inj h h',
      List.cons_lt_cons_iff, List.cons_lt_cons_iff, ih hrest]
    simp

end Text

namespace Timestamp

open Text (fixed)

/-! ## Reading -/

/-- A number of fixed width is read up to its last digit. -/
theorem number_fixed {width n : Nat} (h : n < 10 ^ width) (rest : List Char) :
    number width width (fixed width n ++ rest) = some (n, rest) := by
  have htake : (fixed width n ++ rest).take width = fixed width n := by
    rw [List.take_left' (Text.length_fixed width n)]
  have hdigits : (fixed width n).takeWhile Char.isDigit = fixed width n :=
    List.takeWhile_eq_self_iff.2 fun c hc => Text.isDigit_of_mem_fixed hc
  unfold number
  simp only [htake, hdigits, Text.length_fixed, Nat.lt_irrefl, if_false, Text.valueFrom_fixed h,
    List.drop_left' (Text.length_fixed width n)]

theorem expect_cons (c : Char) (rest : List Char) : expect c (c :: rest) = some rest :=
  if_pos rfl

end Timestamp

end ResourceApi
