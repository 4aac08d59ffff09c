import ResourceApi.Proofs.Text.Percent

/-!
# Well-formed bytes

**Theorem (`Utf8.decode?_eq_some_iff`).** Bytes are read as a text exactly if they are the bytes of
that text. So every text has one written form, and bytes in any other form are refused.

One direction is `Utf8.decode?_encode`. For the other the reader is taken apart by the size of a
character again: the ranges that it allows for the first and the second byte are those of characters
that are written in this many bytes.
-/

namespace ResourceApi.Text.Utf8

/-! ## Written forms by size -/

section

variable {v : Nat}

theorem toNat_val_ofNat (h : v < 0xD800 ∨ 0xDFFF < v ∧ v < 0x110000) :
    (Char.ofNat v).val.toNat = v := by
  have hv : v.isValidChar := h
  rw [Char.ofNat, dif_pos hv]
  rfl

theorem encodeChar_one (h : v < 0x80) : String.utf8EncodeChar (Char.ofNat v) = [UInt8.ofNat v] := by
  simp only [String.utf8EncodeChar, toNat_val_ofNat (v := v) (by omega)]
  rw [if_pos (by omega)]

theorem encodeChar_two (hleast : 0x80 ≤ v) (hmost : v < 0x800) :
    String.utf8EncodeChar (Char.ofNat v) = [UInt8.ofNat (v / 64 + 0xC0), tail v] := by
  have hfirst : v / 64 % 32 = v / 64 := by omega
  simp only [String.utf8EncodeChar, toNat_val_ofNat (v := v) (by omega), hfirst]
  rw [if_neg (by omega), if_pos (by omega)]
  rfl

theorem encodeChar_three (hleast : 0x800 ≤ v) (hmost : v < 0x10000)
    (h : v < 0xD800 ∨ 0xDFFF < v) :
    String.utf8EncodeChar (Char.ofNat v) =
      [UInt8.ofNat (v / 4096 + 0xE0), tail (v / 64), tail v] := by
  have hfirst : v / 4096 % 16 = v / 4096 := by omega
  simp only [String.utf8EncodeChar, toNat_val_ofNat (v := v) (by omega), hfirst]
  rw [if_neg (by omega), if_neg (by omega), if_pos (by omega)]
  rfl

theorem encodeChar_four (hleast : 0x10000 ≤ v) (hmost : v < 0x110000) :
    String.utf8EncodeChar (Char.ofNat v) =
      [UInt8.ofNat (v / 262144 + 0xF0), tail (v / 4096), tail (v / 64), tail v] := by
  have hfirst : v / 262144 % 8 = v / 262144 := by omega
  simp only [String.utf8EncodeChar, toNat_val_ofNat (v := v) (by omega), hfirst]
  rw [if_neg (by omega), if_neg (by omega), if_neg (by omega)]
  rfl

end

/-! ## Bytes that are read -/

theorem ofNat_eq {b : UInt8} {n : Nat} (h : n = b.toNat) : UInt8.ofNat n = b := by
  rw [h, UInt8.ofNat_toNat]

/-- A byte in the range of continuations holds six bits. -/
theorem tail_eq {b : UInt8} {n : Nat} (hleast : 0x80 ≤ b.toNat) (hmost : b.toNat ≤ 0xBF)
    (h : n % 64 = low b) : tail n = b := by
  refine ofNat_eq ?_
  unfold low at h
  omega

theorem range_of_isContinuation {b : UInt8} (h : isContinuation b = true) :
    0x80 ≤ b.toNat ∧ b.toNat ≤ 0xBF := by
  rw [isContinuation, Bool.and_eq_true, decide_eq_true_eq, decide_eq_true_eq,
    UInt8.le_iff_toNat_le, UInt8.le_iff_toNat_le] at h
  exact h

/-- What an allowed second byte is. -/
theorem range_of_allows {first b : UInt8}
    (h : ((secondRange first).1 ≤ b && b ≤ (secondRange first).2) = true) :
    0x80 ≤ b.toNat ∧ b.toNat ≤ 0xBF ∧ (first.toNat = 0xE0 → 0xA0 ≤ b.toNat) ∧
      (first.toNat = 0xED → b.toNat < 0xA0) ∧ (first.toNat = 0xF0 → 0x90 ≤ b.toNat) ∧
      (first.toNat = 0xF4 → b.toNat < 0x90) := by
  have hne {v : UInt8} (hv : first ≠ v) : first.toNat ≠ v.toNat :=
    fun he => hv (UInt8.toNat.inj he)
  rw [Bool.and_eq_true, decide_eq_true_eq, decide_eq_true_eq, UInt8.le_iff_toNat_le,
    UInt8.le_iff_toNat_le] at h
  unfold secondRange at h
  split at h
  · rename_i he
    obtain ⟨hl, hm⟩ : 0xA0 ≤ b.toNat ∧ b.toNat ≤ 0xBF := h
    have he : first.toNat = 0xE0 := congrArg UInt8.toNat he
    omega
  rename_i h₁
  have h₁ : first.toNat ≠ 0xE0 := hne h₁
  split at h
  · rename_i he
    obtain ⟨hl, hm⟩ : 0x80 ≤ b.toNat ∧ b.toNat ≤ 0x9F := h
    have he : first.toNat = 0xED := congrArg UInt8.toNat he
    omega
  rename_i h₂
  have h₂ : first.toNat ≠ 0xED := hne h₂
  split at h
  · rename_i he
    obtain ⟨hl, hm⟩ : 0x90 ≤ b.toNat ∧ b.toNat ≤ 0xBF := h
    have he : first.toNat = 0xF0 := congrArg UInt8.toNat he
    omega
  rename_i h₃
  have h₃ : first.toNat ≠ 0xF0 := hne h₃
  split at h
  · rename_i he
    obtain ⟨hl, hm⟩ : 0x80 ≤ b.toNat ∧ b.toNat ≤ 0x8F := h
    have he : first.toNat = 0xF4 := congrArg UInt8.toNat he
    omega
  · rename_i h₄
    have h₄ : first.toNat ≠ 0xF4 := hne h₄
    obtain ⟨hl, hm⟩ : 0x80 ≤ b.toNat ∧ b.toNat ≤ 0xBF := h
    omega

/-- What the first byte of a character of some size is. -/
theorem range_of_sizeOf {b : UInt8} {n : Nat} (h : sizeOf b = n) :
    (n = 1 → b.toNat < 0x80) ∧ (n = 2 → 0xC2 ≤ b.toNat ∧ b.toNat < 0xE0) ∧
      (n = 3 → 0xE0 ≤ b.toNat ∧ b.toNat < 0xF0) ∧ (n = 4 → 0xF0 ≤ b.toNat ∧ b.toNat < 0xF5) := by
  rw [sizeOf_eq] at h
  split_ifs at h <;> omega

/-- **A character that is read is written in the bytes that were read.** -/
theorem eq_append_of_next {first : UInt8} {rest : List UInt8} {c : Char} {size : Nat}
    (h : next first rest = .char c size) :
    first :: rest = String.utf8EncodeChar c ++ rest.drop (size - 1) := by
  unfold next at h
  dsimp only at h
  split at h
  · rename_i hsize
    have hfirst := (range_of_sizeOf hsize).1 rfl
    obtain ⟨rfl, rfl⟩ := Next.char.inj h
    rw [encodeChar_one hfirst, UInt8.ofNat_toNat]
    rfl
  · rename_i b tl hsize
    have hfirst := (range_of_sizeOf hsize).2.1 rfl
    split at h
    · rename_i hb
      have hb := range_of_allows hb
      obtain ⟨rfl, rfl⟩ := Next.char.inj h
      have hlow : low b = b.toNat % 64 := rfl
      rw [encodeChar_two (by omega) (by omega), ofNat_eq (b := first) (by omega),
        tail_eq hb.1 hb.2.1 (by omega)]
      rfl
    · cases h
  · rename_i b c' tl hsize
    have hfirst := (range_of_sizeOf hsize).2.2.1 rfl
    split at h
    · cases h
    split at h
    · cases h
    · rename_i hb hc
      have hb := range_of_allows (by simpa using hb)
      have hc := range_of_isContinuation (by simpa using hc)
      obtain ⟨rfl, rfl⟩ := Next.char.inj h
      have hlow : low b = b.toNat % 64 := rfl
      have hlow' : low c' = c'.toNat % 64 := rfl
      rw [encodeChar_three (by omega) (by omega) (by omega), ofNat_eq (b := first) (by omega),
        tail_eq (b := b) hb.1 hb.2.1 (by omega), tail_eq hc.1 hc.2 (by omega)]
      rfl
  · split at h <;> cases h
  · rename_i b c' d tl hsize
    have hfirst := (range_of_sizeOf hsize).2.2.2 rfl
    split at h
    · cases h
    split at h
    · cases h
    split at h
    · cases h
    · rename_i hb hc hd
      have hb := range_of_allows (by simpa using hb)
      have hc := range_of_isContinuation (by simpa using hc)
      have hd := range_of_isContinuation (by simpa using hd)
      obtain ⟨rfl, rfl⟩ := Next.char.inj h
      have hlow : low b = b.toNat % 64 := rfl
      have hlow' : low c' = c'.toNat % 64 := rfl
      have hlow'' : low d = d.toNat % 64 := rfl
      rw [encodeChar_four (by omega) (by omega), ofNat_eq (b := first) (by omega),
        tail_eq (b := b) hb.1 hb.2.1 (by omega), tail_eq (b := c') hc.1 hc.2 (by omega),
        tail_eq hd.1 hd.2 (by omega)]
      rfl
  · split at h
    · cases h
    · split at h <;> cases h
  · split at h <;> cases h
  · cases h

theorem eq_encode_of_decode? {bytes : List UInt8} {cs : List Char} (h : decode? bytes = some cs) :
    bytes = encode cs := by
  fun_induction decode? bytes generalizing cs with
  | case1 =>
    cases h
    rfl
  | case2 first rest c size hnext ih =>
    obtain ⟨ds, hds, rfl⟩ := Option.map_eq_some_iff.1 h
    rw [eq_append_of_next hnext, ih hds, encode, encode, List.flatMap_cons]
  | case3 => cases h

/-- **Bytes are read as a text exactly if they are the bytes of the text.** -/
theorem decode?_eq_some_iff {bytes : List UInt8} {cs : List Char} :
    decode? bytes = some cs ↔ bytes = encode cs :=
  ⟨eq_encode_of_decode?, fun h => h ▸ decode?_encode cs⟩

end ResourceApi.Text.Utf8
