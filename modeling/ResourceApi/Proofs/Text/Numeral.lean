import Mathlib.Data.List.TakeWhile
import ResourceApi.Proofs.Query.Acceptance
import ResourceApi.Proofs.Text.Fixed

/-!
# Numerals

What a numeral consists of (`Text.Numeral.IsNumeral`) and that it is taken apart so
(`Text.Numeral.decimal?_eq`). The usual numeral of an integer is read as the integer
(`Text.Numeral.int?_toString_int`).
-/

namespace ResourceApi.Text.Numeral

variable {cs ds whole fraction tail : List Char} {negative : Bool} {exponent : Int} {s : String}

/-! ## Digits -/

theorem valueFrom_toDigits (n : Nat) : valueFrom 0 (Nat.toDigits 10 n) = n :=
  Nat.ofDigitChars_ten_toDigits

theorem natural?_toDigits (n : Nat) : natural? (Nat.toDigits 10 n) = some n :=
  natural?_eq_some_iff.2 ⟨Nat.toDigits_ne_nil,
    fun _ hc => Nat.isDigit_of_mem_toDigits (by decide) (Nat.le_refl 10) hc, valueFrom_toDigits n⟩

theorem valueFrom_zeros_append (k : Nat) (cs : List Char) :
    valueFrom 0 (List.replicate k '0' ++ cs) = valueFrom 0 cs := by
  induction k with
  | zero => rfl
  | succ k ih =>
    rw [List.replicate_succ, List.cons_append]
    exact ih

theorem valueFrom_append_zeros (cs : List Char) (k : Nat) :
    valueFrom 0 (cs ++ List.replicate k '0') = valueFrom 0 cs * 10 ^ k := by
  induction k with
  | zero => rw [List.replicate_zero, List.append_nil, Nat.pow_zero, Nat.mul_one]
  | succ k ih =>
    rw [List.replicate_succ', ← List.append_assoc, valueFrom_append, ih, Nat.pow_succ]
    show 10 * (valueFrom 0 cs * 10 ^ k) + 0 = _
    rw [Nat.add_zero, Nat.mul_comm, Nat.mul_assoc]

/-! ## Signs -/

/-- A text with a minus sign or without. -/
def signed (negative : Bool) (cs : List Char) : List Char := if negative then '-' :: cs else cs

/-- A digit is no sign. -/
theorem takeSign_signed {c : Char} (hc : c.isDigit) (cs : List Char) (negative : Bool) :
    takeSign (signed negative (c :: cs)) = (negative, c :: cs) := by
  cases negative with
  | true => rfl
  | false =>
    have hsame : signed false (c :: cs) = c :: cs := rfl
    rw [hsame]
    obtain ⟨rest, hrest, -⟩ | ⟨rest, hrest, -⟩ | hsign := takeSign_cases (c :: cs)
    · exact absurd ((List.cons.inj hrest).1 ▸ hc) (by decide)
    · exact absurd ((List.cons.inj hrest).1 ▸ hc) (by decide)
    · exact hsign

theorem takeSign_signed_toDigits (negative : Bool) (n : Nat) :
    takeSign (signed negative (Nat.toDigits 10 n)) = (negative, Nat.toDigits 10 n) := by
  cases hdigits : Nat.toDigits 10 n with
  | nil => exact absurd hdigits Nat.toDigits_ne_nil
  | cons c rest =>
    exact takeSign_signed (Nat.isDigit_of_mem_toDigits (by decide) (Nat.le_refl 10)
      (hdigits ▸ List.mem_cons_self)) rest negative

theorem toList_toString_int (i : Int) :
    (toString i).toList = signed (decide (i < 0)) (Nat.toDigits 10 i.natAbs) := by
  cases i with
  | ofNat n => exact Nat.toList_repr
  | negSucc n =>
    have htext : toString (Int.negSucc n) = "-" ++ Nat.repr (n + 1) := rfl
    have hnegative : decide (Int.negSucc n < 0) = true := decide_eq_true (Int.negSucc_lt_zero n)
    rw [htext, String.toList_append, Nat.toList_repr, hnegative]
    rfl

/-- The usual numeral of an integer is read as the integer. -/
theorem int?_toString_int {i : Int} (hi : minInt ≤ i ∧ i ≤ maxInt) :
    int? (toString i) = some i := by
  have hvalue : (if decide (i < 0) = true then -(i.natAbs : Int) else i.natAbs) = i := by
    simp only [decide_eq_true_eq]
    split <;> omega
  unfold int?
  rw [toList_toString_int, takeSign_signed_toDigits]
  dsimp only
  rw [natural?_toDigits]
  dsimp only
  rw [hvalue, if_pos (by simpa using hi)]

/-! ## Parts of a numeral -/

theorem exponent?_signed (sign : Bool) (n : Nat) :
    exponent? ('e' :: (if sign then '-' else '+') :: Nat.toDigits 10 n) =
      some (if sign then -(n : Int) else n) := by
  cases sign <;> simp [exponent?, takeSign, natural?_toDigits]

/-- What may stand behind the digits. -/
inductive IsExponent : List Char → Int → Prop
  | absent : IsExponent [] 0
  | written {rest : List Char} {e : Int} :
      exponent? ('e' :: rest) = some e → IsExponent ('e' :: rest) e

/-- A numeral without a sign: its digits before and after the point, and its exponent. -/
inductive IsNumeral : List Char → List Char → List Char → Int → Prop
  | integer {whole tail : List Char} {e : Int} :
      whole ≠ [] → (∀ c ∈ whole, c.isDigit) → IsExponent tail e →
      IsNumeral (whole ++ tail) whole [] e
  | pointed {whole fraction tail : List Char} {e : Int} :
      whole ≠ [] → (∀ c ∈ whole, c.isDigit) → (∀ c ∈ fraction, c.isDigit) → IsExponent tail e →
      IsNumeral (whole ++ '.' :: (fraction ++ tail)) whole fraction e

theorem IsExponent.exponent? (h : IsExponent tail exponent) :
    Numeral.exponent? tail = some exponent := by
  cases h with
  | absent => rfl
  | written h => exact h

/-- Digits end where an exponent begins. -/
theorem IsExponent.span (h : IsExponent tail exponent) (hcs : ∀ c ∈ cs, c.isDigit) :
    (cs ++ tail).takeWhile Char.isDigit = cs ∧ (cs ++ tail).dropWhile Char.isDigit = tail := by
  rw [List.takeWhile_append_of_pos hcs, List.dropWhile_append_of_pos hcs]
  cases h with
  | absent => exact ⟨List.append_nil _, rfl⟩
  | written =>
    rw [List.takeWhile_cons_of_neg (by decide), List.dropWhile_cons_of_neg (by decide),
      List.append_nil]
    exact ⟨rfl, rfl⟩

/-- **A numeral is taken apart into its parts.** -/
theorem decimal?_eq (h : IsNumeral cs whole fraction exponent) (hs : s.toList = signed negative cs) :
    decimal? s = some ⟨negative, whole, fraction, exponent⟩ := by
  have hsign : takeSign s.toList = (negative, cs) := by
    rw [hs]
    cases h with
    | integer hne hdigits | pointed hne hdigits =>
      cases whole with
      | nil => exact absurd rfl hne
      | cons c rest => exact takeSign_signed (hdigits c List.mem_cons_self) _ negative
  unfold decimal?
  rw [hsign]
  dsimp only
  cases h with
  | integer hne hdigits htail =>
    obtain ⟨htake, hdrop⟩ := htail.span hdigits
    rw [htake, hdrop]
    cases htail with
    | absent => simp [hne, Numeral.exponent?]
    | written he => simp [hne, he]
  | pointed hne hdigits hfraction htail =>
    obtain ⟨htake, hdrop⟩ := htail.span hfraction
    rw [List.takeWhile_append_of_pos hdigits, List.dropWhile_append_of_pos hdigits,
      List.takeWhile_cons_of_neg (by decide), List.dropWhile_cons_of_neg (by decide),
      List.append_nil]
    simp only [htake, hdrop, htail.exponent?]
    simp [hne]

end ResourceApi.Text.Numeral
