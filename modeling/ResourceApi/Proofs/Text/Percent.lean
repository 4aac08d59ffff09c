import Mathlib.Data.List.Basic
import ResourceApi.Text.Percent

/-!
# Encoded texts

A text is written as UTF-8, and its bytes with percent signs and digits. Both can be taken back.

**Theorems (`Utf8.decode?_encode`, `Percent.decodeForm?_encode`).** The bytes of a text are read as
the text, and a percent-encoded text is decoded to the text, also where `+` stands for a space.

The reader of UTF-8 is taken apart by the size of a character. In each case the first byte has the
highest bits and every further byte the next six (`tail`), and the ranges that the reader allows for
the second byte leave out only what no character is written as.
-/

namespace ResourceApi.Text

namespace Utf8

/-! ## Bytes of characters -/

/-- The continuation byte that holds the lowest six bits of a number. -/
def tail (n : Nat) : UInt8 := UInt8.ofNat (n % 64 + 0x80)

theorem toNat_tail (n : Nat) : (tail n).toNat = n % 64 + 0x80 := by
  rw [tail, UInt8.toNat_ofNat']
  omega

theorem isContinuation_tail (n : Nat) : isContinuation (tail n) = true := by
  simp only [isContinuation, Bool.and_eq_true, decide_eq_true_eq, UInt8.le_iff_toNat_le, toNat_tail]
  exact ⟨Nat.le_add_left _ _, show n % 64 + 0x80 ≤ 0xBF by omega⟩

theorem low_tail (n : Nat) : low (tail n) = n % 64 := by
  rw [low, toNat_tail]
  omega

/-- A second byte that makes no overlong form, no surrogate and no value past the last one. -/
theorem allows_tail {first : UInt8} {n : Nat} (h₁ : first.toNat = 0xE0 → 32 ≤ n % 64)
    (h₂ : first.toNat = 0xED → n % 64 < 32) (h₃ : first.toNat = 0xF0 → 16 ≤ n % 64)
    (h₄ : first.toNat = 0xF4 → n % 64 < 16) :
    ((secondRange first).1 ≤ tail n && tail n ≤ (secondRange first).2) = true := by
  rw [Bool.and_eq_true, decide_eq_true_eq, decide_eq_true_eq, UInt8.le_iff_toNat_le,
    UInt8.le_iff_toNat_le, toNat_tail]
  unfold secondRange
  split
  · rename_i h
    have := h₁ (congrArg UInt8.toNat h)
    exact ⟨show 0xA0 ≤ _ by omega, show _ ≤ 0xBF by omega⟩
  split
  · rename_i h
    have := h₂ (congrArg UInt8.toNat h)
    exact ⟨show 0x80 ≤ _ by omega, show _ ≤ 0x9F by omega⟩
  split
  · rename_i h
    have := h₃ (congrArg UInt8.toNat h)
    exact ⟨show 0x90 ≤ _ by omega, show _ ≤ 0xBF by omega⟩
  split
  · rename_i h
    have := h₄ (congrArg UInt8.toNat h)
    exact ⟨show 0x80 ≤ _ by omega, show _ ≤ 0x8F by omega⟩
  · exact ⟨show 0x80 ≤ _ by omega, show _ ≤ 0xBF by omega⟩

theorem encode_append (cs ds : List Char) : encode (cs ++ ds) = encode cs ++ encode ds :=
  List.flatMap_append

theorem sizeOf_eq (b : UInt8) : sizeOf b =
    if b.toNat < 0x80 then 1 else if b.toNat < 0xC2 then 0 else if b.toNat < 0xE0 then 2
    else if b.toNat < 0xF0 then 3 else if b.toNat < 0xF5 then 4 else 0 := rfl

section

variable {first : UInt8} {v : Nat} (rest : List UInt8)

theorem next_one (h : first.toNat = v) (hv : v < 0x80) :
    next first rest = .char (Char.ofNat v) 1 := by
  have hsize : sizeOf first = 1 := by rw [sizeOf_eq, h, if_pos hv]
  simp only [next, hsize, h]

theorem next_two (h : first.toNat = v / 64 + 0xC0) (hleast : 0x80 ≤ v) (hmost : v < 0x800) :
    next first (tail v :: rest) = .char (Char.ofNat v) 2 := by
  have hsize : sizeOf first = 2 := by
    rw [sizeOf_eq, h, if_neg (by omega), if_neg (by omega), if_pos (by omega)]
  have hsecond : ((secondRange first).1 ≤ tail v && tail v ≤ (secondRange first).2) = true :=
    allows_tail (by omega) (by omega) (by omega) (by omega)
  have hvalue : (v / 64 + 0xC0) % 32 * 64 + v % 64 = v := by omega
  simp only [next, hsize, hsecond, if_true, h, low_tail, hvalue]

theorem next_three (h : first.toNat = v / 4096 + 0xE0) (hleast : 0x800 ≤ v) (hmost : v < 0x10000)
    (hv : v < 0xD800 ∨ 0xDFFF < v) :
    next first (tail (v / 64) :: tail v :: rest) = .char (Char.ofNat v) 3 := by
  have hsize : sizeOf first = 3 := by
    rw [sizeOf_eq, h, if_neg (by omega), if_neg (by omega), if_neg (by omega), if_pos (by omega)]
  have hsecond : ((secondRange first).1 ≤ tail (v / 64) && tail (v / 64) ≤ (secondRange first).2)
      = true := allows_tail (by omega) (by omega) (by omega) (by omega)
  have hvalue : ((v / 4096 + 0xE0) % 16 * 64 + v / 64 % 64) * 64 + v % 64 = v := by omega
  simp only [next, hsize, hsecond, isContinuation_tail, Bool.not_true, Bool.false_eq_true, if_false,
    h, low_tail, hvalue]

theorem next_four (h : first.toNat = v / 262144 + 0xF0) (hleast : 0x10000 ≤ v)
    (hmost : v < 0x110000) :
    next first (tail (v / 4096) :: tail (v / 64) :: tail v :: rest) = .char (Char.ofNat v) 4 := by
  have hsize : sizeOf first = 4 := by
    rw [sizeOf_eq, h, if_neg (by omega), if_neg (by omega), if_neg (by omega), if_neg (by omega),
      if_pos (by omega)]
  have hsecond : ((secondRange first).1 ≤ tail (v / 4096) &&
      tail (v / 4096) ≤ (secondRange first).2) = true :=
    allows_tail (by omega) (by omega) (by omega) (by omega)
  have hvalue : (((v / 262144 + 0xF0) % 8 * 64 + v / 4096 % 64) * 64 + v / 64 % 64) * 64 + v % 64
      = v := by omega
  simp only [next, hsize, hsecond, isContinuation_tail, Bool.not_true, Bool.false_eq_true, if_false,
    h, low_tail, hvalue]

end

/-- The bytes of a character are read as the character. -/
theorem next_encodeChar (c : Char) (rest : List UInt8) : ∃ first bytes,
    String.utf8EncodeChar c = first :: bytes ∧
      next first (bytes ++ rest) = .char c (bytes.length + 1) := by
  have hvalid : c.val.toNat < 0xD800 ∨ 0xDFFF < c.val.toNat ∧ c.val.toNat < 0x110000 := c.valid
  have hc : c = Char.ofNat c.val.toNat := (Char.ofNat_toNat c).symm
  unfold String.utf8EncodeChar
  dsimp only
  split
  · refine ⟨_, _, rfl, ?_⟩
    conv_rhs => rw [hc]
    exact next_one rest (by rw [UInt8.toNat_ofNat']; omega) (by omega)
  split
  · refine ⟨_, [tail c.val.toNat], rfl, ?_⟩
    conv_rhs => rw [hc]
    exact next_two rest (by rw [UInt8.toNat_ofNat']; omega) (by omega) (by omega)
  split
  · refine ⟨_, [tail (c.val.toNat / 64), tail c.val.toNat], rfl, ?_⟩
    conv_rhs => rw [hc]
    exact next_three rest (by rw [UInt8.toNat_ofNat']; omega) (by omega) (by omega) (by omega)
  · refine ⟨_, [tail (c.val.toNat / 4096), tail (c.val.toNat / 64), tail c.val.toNat], rfl, ?_⟩
    conv_rhs => rw [hc]
    exact next_four rest (by rw [UInt8.toNat_ofNat']; omega) (by omega) (by omega)

/-- **The bytes of a text are read as the text.** -/
theorem decode?_encode (cs : List Char) : decode? (encode cs) = some cs := by
  induction cs with
  | nil => rw [encode, List.flatMap_nil, decode?]
  | cons c cs ih =>
    obtain ⟨first, bytes, hbytes, hnext⟩ := next_encodeChar c (encode cs)
    have hencode : encode (c :: cs) = first :: (bytes ++ encode cs) := by
      rw [encode, List.flatMap_cons, hbytes]
      rfl
    rw [hencode, decode?, hnext]
    simp [ih]

end Utf8

namespace Percent

/-! ## Percent-encoding -/

/-- A character that encoded texts are made of. -/
def isPlain (c : Char) : Bool := c.isAlphanum || c ∈ ['-', '.', '_', '~', '%']

theorem unescape_of_ne {b : UInt8} (h : b ≠ 0x25) (rest : List UInt8) :
    unescape (b :: rest) = b :: unescape rest := by
  match rest with
  | [] => rfl
  | [_] => rfl
  | _ :: _ :: _ => rw [unescape, if_neg h]

theorem unescape_escaped {a b high low : UInt8} {rest : List UInt8} (ha : hexValue? a = some high)
    (hb : hexValue? b = some low) :
    unescape (0x25 :: a :: b :: rest) = (high * 16 + low) :: unescape rest := by
  rw [unescape, if_pos rfl, ha, hb]

/-- A digit is one byte, and read as its value. -/
theorem exists_hexValue?_hexDigit {value : UInt8} (h : value.toNat < 16) :
    ∃ x, String.utf8EncodeChar (hexDigit value) = [x] ∧ hexValue? x = some value := by
  have hall : ∀ n < 16, String.utf8EncodeChar (hexDigit (UInt8.ofNat n)) =
        [UInt8.ofNat (hexDigit (UInt8.ofNat n)).toNat] ∧
      hexValue? (UInt8.ofNat (hexDigit (UInt8.ofNat n)).toNat) = some (UInt8.ofNat n) := by
    decide
  have hvalue := hall value.toNat h
  rw [UInt8.ofNat_toNat] at hvalue
  exact ⟨_, hvalue⟩

/-- A byte that stands for itself is an ASCII character, and no percent sign. -/
theorem encodeChar_of_isUnreserved {b : UInt8} (h : isUnreserved b) :
    String.utf8EncodeChar (Char.ofNat b.toNat) = [b] ∧ b ≠ 0x25 := by
  have hall : ∀ n < 256, isUnreserved (UInt8.ofNat n) →
      String.utf8EncodeChar (Char.ofNat n) = [UInt8.ofNat n] ∧ UInt8.ofNat n ≠ 0x25 := by
    decide +kernel
  have hb := hall b.toNat b.toNat_lt
  rw [UInt8.ofNat_toNat] at hb
  exact hb h

/-- **An escaped byte is read as the byte.** -/
theorem unescape_escape (b : UInt8) (rest : List UInt8) :
    unescape (Utf8.encode (escape b) ++ rest) = b :: unescape rest := by
  unfold escape
  split
  · rename_i h
    obtain ⟨hencode, hb⟩ := encodeChar_of_isUnreserved h
    rw [Utf8.encode, List.flatMap_singleton, hencode]
    exact unescape_of_ne hb rest
  · have hhigh : (b / 16).toNat = b.toNat / 16 := UInt8.toNat_div b 16
    have hlow : (b % 16).toNat = b.toNat % 16 := UInt8.toNat_mod b 16
    have hlt := b.toNat_lt
    obtain ⟨x, hx, hxv⟩ := @exists_hexValue?_hexDigit (b / 16) (by omega)
    obtain ⟨y, hy, hyv⟩ := @exists_hexValue?_hexDigit (b % 16) (by omega)
    have hencode : Utf8.encode ['%', hexDigit (b / 16), hexDigit (b % 16)] = [0x25, x, y] := by
      simp only [Utf8.encode, List.flatMap_cons, List.flatMap_nil, hx, hy]
      rfl
    have hb : b / 16 * 16 + b % 16 = b := by
      apply UInt8.toNat.inj
      rw [UInt8.toNat_add, UInt8.toNat_mul, hhigh, hlow, show (16 : UInt8).toNat = 16 from rfl]
      omega
    rw [hencode]
    refine (unescape_escaped hxv hyv).trans ?_
    rw [hb]
    rfl

theorem unescape_encode (bytes rest : List UInt8) :
    unescape (Utf8.encode (bytes.flatMap escape) ++ rest) = bytes ++ unescape rest := by
  induction bytes with
  | nil => rfl
  | cons b bytes ih =>
    rw [List.flatMap_cons, Utf8.encode_append, List.append_assoc, unescape_escape, ih]
    rfl

theorem isPlain_of_mem_escape {b : UInt8} {c : Char} (h : c ∈ escape b) : isPlain c := by
  have hall : ∀ n < 256, (escape (UInt8.ofNat n)).all isPlain := by decide +kernel
  have hb := hall b.toNat b.toNat_lt
  rw [UInt8.ofNat_toNat] at hb
  exact List.all_eq_true.1 hb c h

/-- An encoded text has only letters, digits and a few signs. -/
theorem isPlain_of_mem_encode {s : String} {c : Char} (h : c ∈ (encode s).toList) : isPlain c := by
  rw [encode, String.toList_ofList, List.mem_flatMap] at h
  obtain ⟨b, -, hb⟩ := h
  exact isPlain_of_mem_escape hb

/-! ## Decoded texts -/

/-- Characters that are decoded to others wherever they stand. -/
structure Spells (cs ds : List Char) : Prop where
  plus_notMem : '+' ∉ cs
  bytes (rest : List UInt8) :
    unescape (Utf8.encode cs ++ rest) = Utf8.encode ds ++ unescape rest

theorem Spells.append {cs cs' ds ds' : List Char} (h : Spells cs ds) (h' : Spells cs' ds') :
    Spells (cs ++ cs') (ds ++ ds') where
  plus_notMem hmem := (List.mem_append.1 hmem).elim h.plus_notMem h'.plus_notMem
  bytes rest := by
    rw [Utf8.encode_append, List.append_assoc, h.bytes, h'.bytes, Utf8.encode_append,
      List.append_assoc]

theorem spells_nil : Spells [] [] := ⟨by simp, fun _ => rfl⟩

theorem spells_encode (s : String) : Spells (encode s).toList s.toList where
  plus_notMem hmem := absurd (isPlain_of_mem_encode hmem) (by decide)
  bytes rest := by rw [encode, String.toList_ofList, unescape_encode]

/-- A character of one byte stands for itself. -/
theorem spells_singleton {c : Char} {b : UInt8} (hc : c ≠ '+') (hb : String.utf8EncodeChar c = [b])
    (hne : b ≠ 0x25) : Spells [c] [c] where
  plus_notMem hmem := hc (List.mem_singleton.1 hmem).symm
  bytes rest := by
    rw [Utf8.encode, List.flatMap_singleton, hb]
    exact unescape_of_ne hne rest

/-- Only a percent sign is written with the byte of a percent sign. -/
theorem notMem_encodeChar {c : Char} (h : c ≠ '%') : 0x25 ∉ String.utf8EncodeChar c := by
  have hc : c.val.toNat ≠ 0x25 := fun he => h (Char.ext (UInt32.toNat.inj he))
  have hvalid : c.val.toNat < 0xD800 ∨ 0xDFFF < c.val.toNat ∧ c.val.toNat < 0x110000 := c.valid
  have hne {n : Nat} (hn : n % 256 ≠ 0x25) : 0x25 ≠ UInt8.ofNat n := by
    intro he
    have hbyte := congrArg UInt8.toNat he
    rw [UInt8.toNat_ofNat'] at hbyte
    exact hn hbyte.symm
  unfold String.utf8EncodeChar
  dsimp only
  split
  · simpa only [List.mem_singleton] using hne (by omega)
  split
  · simp only [List.mem_cons, List.not_mem_nil, or_false, not_or]
    exact ⟨hne (by omega), hne (by omega)⟩
  split
  · simp only [List.mem_cons, List.not_mem_nil, or_false, not_or]
    exact ⟨hne (by omega), hne (by omega), hne (by omega)⟩
  · simp only [List.mem_cons, List.not_mem_nil, or_false, not_or]
    exact ⟨hne (by omega), hne (by omega), hne (by omega), hne (by omega)⟩

theorem unescape_append_of_notMem {bytes : List UInt8} (h : 0x25 ∉ bytes) (rest : List UInt8) :
    unescape (bytes ++ rest) = bytes ++ unescape rest := by
  induction bytes with
  | nil => rfl
  | cons b bytes ih =>
    rw [List.mem_cons, not_or] at h
    rw [List.cons_append, unescape_of_ne (Ne.symm h.1), ih h.2]
    rfl

/-- A text without special characters stands for itself. -/
theorem spells_self {cs : List Char} (hplus : '+' ∉ cs) (hpercent : '%' ∉ cs) : Spells cs cs where
  plus_notMem := hplus
  bytes rest := by
    refine unescape_append_of_notMem (fun hmem => ?_) rest
    obtain ⟨c, hc, hb⟩ := List.mem_flatMap.1 hmem
    exact notMem_encodeChar (fun he => hpercent (he ▸ hc)) hb

theorem decodeForm?_of_spells {cs ds : List Char} (h : Spells cs ds) :
    decodeForm? (String.ofList cs) = some (String.ofList ds) := by
  have hmap : cs.map (fun c => if c = '+' then ' ' else c) = cs := by
    refine (List.map_congr_left fun c hc => ?_).trans (List.map_id _)
    refine if_neg ?_
    rintro rfl
    exact h.plus_notMem hc
  have hbytes := h.bytes []
  rw [unescape, List.append_nil, List.append_nil] at hbytes
  rw [decodeForm?, decode?, String.toList_map, String.toList_ofList, hmap, hbytes,
    Utf8.decode?_encode, Option.map_some]

/-- **An encoded text is decoded to itself.** -/
theorem decodeForm?_encode (s : String) : decodeForm? (encode s) = some s := by
  have h := decodeForm?_of_spells (spells_encode s)
  rwa [String.ofList_toList, String.ofList_toList] at h

end Percent

end ResourceApi.Text
