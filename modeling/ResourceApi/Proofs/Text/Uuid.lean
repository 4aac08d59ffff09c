import Mathlib.Data.List.Basic
import ResourceApi.Text.Uuid

/-!
# Spellings of a UUID, by form and case

A spelling lays the digits of a UUID out in one of four forms (`Uuid.Form`) and writes each letter
in either case.

**Theorems (`Uuid.isSpelling_iff`, `Uuid.digits_of_spells`).** The texts that are recognised are
those that spell some UUID, and `Uuid.digits` finds the one that is spelled.

**Theorem (`Uuid.writtenAlike_iff`).** Two spellings of one UUID are the same text exactly if form
and case are the same in both.
-/

namespace ResourceApi.Text.Uuid

/-! ## Digits -/

theorem toNat_toLower (c : Char) :
    c.toLower.toNat = if 65 ≤ c.toNat ∧ c.toNat ≤ 90 then c.toNat + 32 else c.toNat := by
  unfold Char.toLower
  have hval : (c.val ≥ 'A'.val ∧ c.val ≤ 'Z'.val) ↔ (65 ≤ c.toNat ∧ c.toNat ≤ 90) := Iff.rfl
  by_cases h : 65 ≤ c.toNat ∧ c.toNat ≤ 90
  · rw [dif_pos (hval.2 h), if_pos h]
    show (c.val + 32).toNat = c.val.toNat + 32
    have hc : c.val.toNat ≤ 90 := h.2
    rw [UInt32.toNat_add, show (32 : UInt32).toNat = 32 from rfl]
    omega
  · rw [dif_neg (fun hv => h (hval.1 hv)), if_neg h]

theorem isUpper_iff {c : Char} : c.isUpper ↔ 65 ≤ c.toNat ∧ c.toNat ≤ 90 :=
  decide_eq_true_iff

theorem isHex_iff {c : Char} : isHex c ↔ 48 ≤ c.toNat ∧ c.toNat ≤ 57 ∨
    97 ≤ c.toNat ∧ c.toNat ≤ 102 ∨ 65 ≤ c.toNat ∧ c.toNat ≤ 70 := by
  simp only [isHex, Bool.or_eq_true, Bool.and_eq_true, decide_eq_true_eq, or_assoc]
  exact Iff.rfl

theorem isHex_toLower (c : Char) : isHex c.toLower = isHex c := by
  rw [Bool.eq_iff_iff, isHex_iff, isHex_iff, toNat_toLower]
  split <;> omega

theorem toLower_toLower (c : Char) : c.toLower.toLower = c.toLower := by
  rw [← Char.toNat_inj, toNat_toLower, toNat_toLower]
  split
  · rw [if_neg (by omega)]
  · rfl

/-- A character is known by its lower case and by whether it is a capital. -/
theorem eq_of_toLower {c d : Char} (hlower : c.toLower = d.toLower)
    (hupper : c.isUpper = d.isUpper) : c = d := by
  have hlower := congrArg Char.toNat hlower
  rw [toNat_toLower, toNat_toLower] at hlower
  rw [Bool.eq_iff_iff, isUpper_iff, isUpper_iff] at hupper
  rw [← Char.toNat_inj]
  split at hlower <;> split at hlower <;> omega

/-- A mark that is no letter has no other case. -/
theorem toLower_eq_iff {c mark : Char} (h : mark.toNat < 65 ∨ 122 < mark.toNat) :
    c.toLower = mark ↔ c = mark := by
  rw [← Char.toNat_inj, ← Char.toNat_inj, toNat_toLower]
  split <;> omega

/-! ## Forms -/

/-- How the digits of a UUID are laid out. -/
inductive Form where
  | simple
  | hyphenated
  | braced
  | urn
  deriving DecidableEq, Repr

/-- The text of a form with the given digits. -/
def Form.write : Form → List Char → List Char
  | simple, ds => ds
  | hyphenated, ds => (hyphenate ds).toList
  | braced, ds => '\x7b' :: (hyphenate ds).toList ++ ['\x7d']
  | urn, ds => Uuid.urn ++ (hyphenate ds).toList

/-- The text spells a UUID, which is given by its digits in lower case. -/
structure Spells (form : Form) (uuid : List Char) (s : String) : Prop where
  length : uuid.length = 32
  digits : ∀ c ∈ uuid, isHex c ∧ c.toLower = c
  text : s.toList.map Char.toLower = form.write uuid

/-- Two texts have one form, and capitals at the same places. -/
def WrittenAlike (a b : String) : Prop :=
  (∃ form u v, Spells form u a ∧ Spells form v b) ∧
    a.toList.map Char.isUpper = b.toList.map Char.isUpper

/-! ## Hyphens -/

theorem toList_hyphenate (ds : List Char) : (hyphenate ds).toList =
    ds.take 8 ++ '-' :: ((ds.drop 8).take 4 ++ '-' :: ((ds.drop 12).take 4 ++
      '-' :: ((ds.drop 16).take 4 ++ '-' :: ds.drop 20))) := by
  simp [hyphenate, List.intercalate]

/-- What is between the hyphens. -/
theorem filter_hyphenate {ds : List Char} (h : ∀ c ∈ ds, isHex c) :
    (hyphenate ds).toList.filter isHex = ds := by
  have hall {part : List Char} (hpart : ∀ c ∈ part, c ∈ ds) : part.filter isHex = part :=
    List.filter_eq_self.2 fun c hc => h c (hpart c hc)
  have hhyphen (part : List Char) : ('-' :: part).filter isHex = part.filter isHex := rfl
  have hmid (n k : Nat) : ∀ c ∈ (ds.drop n).take k, c ∈ ds := fun c hc =>
    List.mem_of_mem_drop (List.mem_of_mem_take hc)
  rw [toList_hyphenate]
  simp only [List.filter_append, hhyphen]
  rw [hall fun c => List.mem_of_mem_take, hall (hmid 8 4), hall (hmid 12 4), hall (hmid 16 4),
    hall fun c => List.mem_of_mem_drop]
  have hstep (n : Nat) : (ds.drop n).take 4 ++ ds.drop (n + 4) = ds.drop n := by
    rw [← List.drop_drop, List.take_append_drop]
  rw [hstep 16, hstep 12, hstep 8, List.take_append_drop]

/-- Digits that stand at no place of a hyphen. -/
theorem all_zipIdx {part : List Char} {n : Nat} (h : ∀ i, n ≤ i → i < n + part.length →
    ¬(i = 8 ∨ i = 13 ∨ i = 18 ∨ i = 23)) :
    ((part.zipIdx n).all fun (c, i) =>
      if i = 8 ∨ i = 13 ∨ i = 18 ∨ i = 23 then c == '-' else isHex c) = part.all isHex := by
  induction part generalizing n with
  | nil => rfl
  | cons c rest ih =>
    rw [List.length_cons] at h
    rw [List.zipIdx_cons, List.all_cons, List.all_cons, ih fun i hi hlt => h i (by omega) (by omega)]
    dsimp only
    rw [if_neg (h n (by omega) (by omega))]

/-- Five groups of the right lengths, with a character between each two. -/
theorem isHyphenated_groups {a b c d e : List Char} (ha : a.length = 8) (hb : b.length = 4)
    (hc : c.length = 4) (hd : d.length = 4) (he : e.length = 12) (w x y z : Char) :
    isHyphenated (a ++ w :: (b ++ x :: (c ++ y :: (d ++ z :: e)))) ↔
      (w = '-' ∧ x = '-' ∧ y = '-' ∧ z = '-') ∧ ∀ g ∈ a ++ (b ++ (c ++ (d ++ e))), isHex g := by
  have hlength : (a ++ w :: (b ++ x :: (c ++ y :: (d ++ z :: e)))).length = 36 := by
    simp only [List.length_append, List.length_cons]
    omega
  unfold isHyphenated
  simp only [hlength, List.zipIdx_append, List.zipIdx_cons, List.all_append, List.all_cons]
  rw [all_zipIdx (by omega), all_zipIdx (by omega), all_zipIdx (by omega), all_zipIdx (by omega),
    all_zipIdx (by omega)]
  simp only [ha, hb, hc, hd, List.forall_mem_append, ← List.all_eq_true]
  simp
  tauto

/-- A text of the right length is made of five groups. -/
theorem exists_groups {cs : List Char} (h : cs.length = 36) : ∃ a b c d e w x y z,
    a.length = 8 ∧ b.length = 4 ∧ c.length = 4 ∧ d.length = 4 ∧ e.length = 12 ∧
      cs = a ++ w :: (b ++ x :: (c ++ y :: (d ++ z :: e))) := by
  have hcut (n k : Nat) (hlt : n + k < 36) :
      cs.drop n = (cs.drop n).take k ++ cs[n + k] :: cs.drop (n + k + 1) := by
    rw [← List.drop_eq_getElem_cons, ← List.drop_drop, List.take_append_drop]
  refine ⟨cs.take 8, (cs.drop 9).take 4, (cs.drop 14).take 4, (cs.drop 19).take 4, cs.drop 24,
    cs[8], cs[13], cs[18], cs[23], ?_, ?_, ?_, ?_, ?_, ?_⟩
  case refine_6 =>
    rw [← hcut 19 4 (by omega), ← hcut 14 4 (by omega), ← hcut 9 4 (by omega)]
    exact hcut 0 8 (by omega)
  all_goals simp [h]

theorem isHyphenated_map_toLower (cs : List Char) :
    isHyphenated (cs.map Char.toLower) = isHyphenated cs := by
  by_cases h : cs.length = 36
  · obtain ⟨a, b, c, d, e, w, x, y, z, ha, hb, hc, hd, he, rfl⟩ := exists_groups h
    have hmark {g : Char} : g.toLower = '-' ↔ g = '-' := toLower_eq_iff (by decide)
    simp only [List.map_append, List.map_cons]
    rw [Bool.eq_iff_iff, isHyphenated_groups ha hb hc hd he, isHyphenated_groups]
    · simp only [hmark, ← List.map_append, List.forall_mem_map, isHex_toLower]
    all_goals rwa [List.length_map]
  · have hlength : (cs.length == 36) = false := beq_eq_false_iff_ne.2 h
    simp only [isHyphenated, List.length_map, hlength, Bool.false_and]

/-- Hyphens are put between the groups of thirty-two digits. -/
theorem isHyphenated_iff {cs : List Char} : isHyphenated cs ↔
    ∃ ds : List Char, ds.length = 32 ∧ (∀ c ∈ ds, isHex c) ∧ cs = (hyphenate ds).toList := by
  constructor
  · intro h
    have hlength : cs.length = 36 := by
      unfold isHyphenated at h
      exact beq_iff_eq.1 (Bool.and_eq_true_iff.1 h).1
    obtain ⟨a, b, c, d, e, w, x, y, z, ha, hb, hc, hd, he, rfl⟩ := exists_groups hlength
    obtain ⟨⟨rfl, rfl, rfl, rfl⟩, hhex⟩ := (isHyphenated_groups ha hb hc hd he ..).1 h
    have h8 : (a ++ (b ++ (c ++ (d ++ e)))).drop 8 = b ++ (c ++ (d ++ e)) := List.drop_left' ha
    have h12 := List.drop_drop.symm.trans ((congrArg (List.drop 4) h8).trans (List.drop_left' hb))
    have h16 := List.drop_drop.symm.trans ((congrArg (List.drop 4) h12).trans (List.drop_left' hc))
    have h20 := List.drop_drop.symm.trans ((congrArg (List.drop 4) h16).trans (List.drop_left' hd))
    refine ⟨a ++ (b ++ (c ++ (d ++ e))), ?_, hhex, ?_⟩
    · simp only [List.length_append]
      omega
    · rw [toList_hyphenate, h8, h12, h16, h20, List.take_left' ha, List.take_left' hb,
        List.take_left' hc, List.take_left' hd]
  · rintro ⟨ds, hlength, hhex, rfl⟩
    rw [toList_hyphenate, isHyphenated_groups]
    · refine ⟨⟨rfl, rfl, rfl, rfl⟩, ?_⟩
      have hstep (n : Nat) : (ds.drop n).take 4 ++ ds.drop (n + 4) = ds.drop n := by
        rw [← List.drop_drop, List.take_append_drop]
      rwa [hstep 16, hstep 12, hstep 8, List.take_append_drop]
    all_goals simp [hlength]

/-- Digits in any case between hyphens. -/
theorem exists_hyphenate {cs : List Char} (h : isHyphenated cs) : ∃ uuid : List Char,
    uuid.length = 32 ∧ (∀ c ∈ uuid, isHex c ∧ c.toLower = c) ∧
      cs.map Char.toLower = (hyphenate uuid).toList := by
  rw [← isHyphenated_map_toLower] at h
  obtain ⟨ds, hlength, hhex, heq⟩ := isHyphenated_iff.1 h
  refine ⟨ds, hlength, fun c hc => ⟨hhex c hc, ?_⟩, heq⟩
  have hm : c ∈ cs.map Char.toLower := by
    rw [heq]
    exact (List.mem_filter.1 ((filter_hyphenate hhex).symm ▸ hc)).1
  obtain ⟨d, -, rfl⟩ := List.mem_map.1 hm
  exact toLower_toLower d

theorem Spells.isHyphenated {form : Form} {uuid : List Char} {s : String} {cs : List Char}
    (h : Spells form uuid s) (hcs : cs.map Char.toLower = (hyphenate uuid).toList) :
    isHyphenated cs := by
  rw [← isHyphenated_map_toLower, hcs]
  exact isHyphenated_iff.2 ⟨uuid, h.length, fun c hc => (h.digits c hc).1, rfl⟩

/-! ## Spellings -/

/-- A text in braces. -/
theorem eq_braced {cs : List Char} (hfirst : cs.head? = some '\x7b')
    (hlast : cs.getLast? = some '\x7d') : cs = '\x7b' :: cs.tail.dropLast ++ ['\x7d'] := by
  obtain ⟨rest, rfl⟩ := List.head?_eq_some_iff.1 hfirst
  obtain ⟨front, hfront⟩ := List.getLast?_eq_some_iff.1 hlast
  cases front with
  | nil => cases hfront
  | cons c front =>
    obtain ⟨rfl, rfl⟩ := List.cons.inj hfront
    simp

/-- **The texts that are recognised spell a UUID.** -/
theorem isSpelling_iff {s : String} : isSpelling s ↔ ∃ form uuid, Spells form uuid s := by
  unfold isSpelling
  simp only [Bool.or_eq_true, Bool.and_eq_true, beq_iff_eq]
  constructor
  · rintro (((hsimple | hhyphens) | ⟨⟨hfirst, hlast⟩, hhyphens⟩) | ⟨hurn, hhyphens⟩)
    · simp only [isSimple, Bool.and_eq_true, beq_iff_eq, List.all_eq_true] at hsimple
      refine ⟨.simple, s.toList.map Char.toLower, by rw [List.length_map, hsimple.1], ?_, rfl⟩
      intro c hc
      obtain ⟨d, hd, rfl⟩ := List.mem_map.1 hc
      exact ⟨(isHex_toLower d).trans (hsimple.2 d hd), toLower_toLower d⟩
    · obtain ⟨uuid, hlength, hdigits, htext⟩ := exists_hyphenate hhyphens
      exact ⟨.hyphenated, uuid, hlength, hdigits, htext⟩
    · obtain ⟨uuid, hlength, hdigits, htext⟩ := exists_hyphenate hhyphens
      refine ⟨.braced, uuid, hlength, hdigits, ?_⟩
      rw [eq_braced hfirst hlast, List.cons_append, List.map_cons, List.map_append, htext]
      rfl
    · obtain ⟨uuid, hlength, hdigits, htext⟩ := exists_hyphenate hhyphens
      refine ⟨.urn, uuid, hlength, hdigits, ?_⟩
      rw [← List.take_append_drop urn.length s.toList, List.map_append, hurn, htext]
      rfl
  · rintro ⟨form, uuid, h⟩
    have htext := h.text
    cases form with
    | simple =>
      refine .inl (.inl (.inl ?_))
      simp only [isSimple, Bool.and_eq_true, beq_iff_eq, List.all_eq_true]
      refine ⟨?_, fun c hc => ?_⟩
      · rw [← List.length_map (f := Char.toLower), htext]
        exact h.length
      · have hm : c.toLower ∈ s.toList.map Char.toLower := List.mem_map_of_mem hc
        rw [htext] at hm
        rw [← isHex_toLower]
        exact (h.digits _ hm).1
    | hyphenated => exact .inl (.inl (.inr (h.isHyphenated htext)))
    | braced =>
      refine .inl (.inr ?_)
      rw [Form.write, List.cons_append, List.map_eq_cons_iff] at htext
      obtain ⟨first, rest, hs, hfirst, hrest⟩ := htext
      rw [List.map_eq_append_iff] at hrest
      obtain ⟨mid, last, rfl, hmid, hlast⟩ := hrest
      obtain ⟨last, rfl, hbrace⟩ := List.map_eq_singleton_iff.1 hlast
      obtain rfl := (toLower_eq_iff (by decide)).1 hfirst
      obtain rfl := (toLower_eq_iff (by decide)).1 hbrace
      have hend : ('\x7b' :: mid ++ ['\x7d']).getLast? = some '\x7d' := List.getLast?_concat
      rw [hs, List.tail_cons, List.dropLast_concat]
      exact ⟨⟨rfl, hend⟩, h.isHyphenated hmid⟩
    | urn =>
      refine .inr ?_
      rw [Form.write, List.map_eq_append_iff] at htext
      obtain ⟨front, rest, hs, hfront, hrest⟩ := htext
      have hlength : urn.length = front.length := by rw [← hfront, List.length_map]
      rw [hs, hlength, List.take_left, List.drop_left]
      exact ⟨hfront, h.isHyphenated hrest⟩

/-- **The UUID of a spelling is the one it spells.** -/
theorem digits_of_spells {form : Form} {uuid : List Char} {s : String} (h : Spells form uuid s) :
    digits s = uuid := by
  have hhex : ∀ c ∈ uuid, isHex c := fun c hc => (h.digits c hc).1
  have hself : uuid.filter isHex = uuid := List.filter_eq_self.2 hhex
  -- a text that begins with a digit or a brace is no name
  have hname {first : Char} {rest : List Char} (hfirst : first ≠ 'u') :
      ((first :: rest).take urn.length == urn) = false := by
    refine beq_eq_false_iff_ne.2 fun heq => hfirst ?_
    exact (List.cons.inj heq).1
  have hdigit {c : Char} (hc : c ∈ uuid) : c ≠ 'u' := by
    rintro rfl
    exact absurd (hhex _ hc) (by decide)
  obtain ⟨first, rest, hfirst⟩ : ∃ first rest, uuid = first :: rest :=
    List.exists_cons_of_ne_nil (List.ne_nil_of_length_pos (by rw [h.length]; omega))
  have hne : first ≠ 'u' := hdigit (hfirst ▸ List.mem_cons_self)
  unfold digits
  rw [h.text]
  dsimp only
  cases form with
  | simple =>
    rw [Form.write, hfirst, hname hne, ← hfirst]
    exact hself
  | hyphenated =>
    have hcons : ∃ tail, (hyphenate uuid).toList = first :: tail := by
      rw [toList_hyphenate, hfirst]
      exact ⟨_, rfl⟩
    obtain ⟨tail, htail⟩ := hcons
    rw [Form.write, htail, hname hne, ← htail]
    exact filter_hyphenate hhex
  | braced =>
    rw [Form.write, List.cons_append, hname (by decide), if_neg Bool.false_ne_true,
      List.filter_cons_of_neg (by decide), List.filter_append, filter_hyphenate hhex]
    exact List.append_nil _
  | urn =>
    rw [Form.write, List.take_left, List.drop_left, beq_self_eq_true, if_pos rfl]
    exact filter_hyphenate hhex

/-- Two texts that have the same lower case and capitals at the same places are equal. -/
theorem eq_of_map_toLower {cs ds : List Char} (hlower : cs.map Char.toLower = ds.map Char.toLower)
    (hupper : cs.map Char.isUpper = ds.map Char.isUpper) : cs = ds := by
  induction cs generalizing ds with
  | nil => exact (List.map_eq_nil_iff.1 hlower.symm).symm
  | cons c cs ih =>
    cases ds with
    | nil => cases hlower
    | cons d ds =>
      obtain ⟨hc, hcs⟩ := List.cons.inj hlower
      obtain ⟨hc', hcs'⟩ := List.cons.inj hupper
      rw [eq_of_toLower hc hc', ih hcs hcs']

/-- **Spellings of one UUID are equal exactly if they are written alike.** -/
theorem writtenAlike_iff {a b : String} (ha : isSpelling a) (hsame : digits a = digits b) :
    WrittenAlike a b ↔ a = b := by
  constructor
  · rintro ⟨⟨form, u, v, hu, hv⟩, hupper⟩
    rw [digits_of_spells hu, digits_of_spells hv] at hsame
    refine String.toList_injective (eq_of_map_toLower ?_ hupper)
    rw [hu.text, hv.text, hsame]
  · rintro rfl
    obtain ⟨form, u, hu⟩ := isSpelling_iff.1 ha
    exact ⟨⟨form, u, u, hu, hu⟩, rfl⟩

end ResourceApi.Text.Uuid
