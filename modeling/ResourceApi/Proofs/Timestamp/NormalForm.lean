import ResourceApi.Proofs.Timestamp.Instants

/-!
# The normal form of timestamps

In the years of four digits a timestamp is written as a row of numbers of fixed width
(`Timestamp.toList_text`), and so the texts are in the order of the instants
(`Timestamp.text_lt_text_iff`) and each of them is read as the timestamp again
(`Timestamp.parse?_text`).

Other years are written with a sign, and what is written with a sign and ends with `Z` is not read
(`Timestamp.parse?_text_eq_none`): a signed year belongs to the forms without an offset.
-/

namespace ResourceApi.Timestamp

open ResourceApi.Text (isBlank fixed rowOf Fits)

/-- A year of four digits. -/
def HasShortYear (t : Timestamp) : Prop := 0 ≤ t.date.year ∧ t.date.year ≤ 9999

instance (t : Timestamp) : Decidable t.HasShortYear := inferInstanceAs (Decidable (_ ∧ _))

variable {t u : Timestamp} {cs rest : List Char} {n : Nat}

/-! ## Rows of numbers -/

/-- The widths of the numbers of a normal form, and what stands behind each. -/
def layout : List (Nat × Char) :=
  [(4, '-'), (2, '-'), (2, 'T'), (2, ':'), (2, ':'), (2, '.'), (3, 'Z')]

/-- The numbers of a timestamp. -/
def numbers (t : Timestamp) : List Nat :=
  [t.date.year.toNat, t.date.month, t.date.day, t.minute / 60, t.minute % 60, t.second,
    t.millisecond]

theorem fits_numbers (ht : t.Exists) (hy : t.HasShortYear) : Fits layout t.numbers := by
  obtain ⟨⟨-, hmonth, -, hday⟩, hminute, hsecond, hmillisecond⟩ := ht
  have hlength : Date.daysInMonth t.date.year t.date.month ≤ 31 := by
    unfold Date.daysInMonth
    split_ifs <;> decide
  have hyear := hy.2
  unfold layout numbers Fits
  refine .cons ?_ (.cons ?_ (.cons ?_ (.cons ?_ (.cons ?_ (.cons ?_ (.cons ?_ .nil))))))
  all_goals dsimp only
  all_goals omega

/-- **The normal form is a row of numbers.** -/
theorem toList_text (ht : t.Exists) (hy : t.HasShortYear) :
    t.text.toList = rowOf layout t.numbers := by
  have hfits := fits_numbers ht hy
  simp only [Fits, layout, numbers, List.forall₂_cons, List.Forall₂.nil, and_true] at hfits
  obtain ⟨hyear, hmonth, hday, hhour, hminute, hsecond, hmillisecond⟩ := hfits
  have hshort : yearText t.date.year = padded 4 t.date.year.toNat := if_pos hy
  unfold text
  simp only [hshort, String.toList_append, Text.toList_padded (by decide) hyear,
    Text.toList_padded (by decide) hmonth, Text.toList_padded (by decide) hday,
    Text.toList_padded (by decide) hhour, Text.toList_padded (by decide) hminute,
    Text.toList_padded (by decide) hsecond, Text.toList_padded (by decide) hmillisecond,
    List.append_assoc]
  rfl

/-- The numbers of timestamps are in the order of the instants. -/
theorem numbers_lt_numbers_iff (ht : t.Exists) (hu : u.Exists) (hy : t.HasShortYear)
    (hy' : u.HasShortYear) : t.numbers < u.numbers ↔ t.instant < u.instant := by
  have hyear := hy.1
  have hyear' := hy'.1
  rw [instant_lt_iff ht hu, Date.Before, Date.eq_iff]
  unfold numbers
  simp only [List.cons_lt_cons_iff, List.lt_irrefl, and_false, or_false]
  omega

/-- **Normal forms are in the order of the instants.** -/
theorem text_lt_text_iff (ht : t.Exists) (hu : u.Exists) (hy : t.HasShortYear)
    (hy' : u.HasShortYear) : t.text < u.text ↔ t.instant < u.instant := by
  rw [String.lt_iff, toList_text ht hy, toList_text hu hy',
    Text.rowOf_lt_rowOf_iff (fits_numbers ht hy) (fits_numbers hu hy'),
    numbers_lt_numbers_iff ht hu hy hy']

/-! ## Reading the normal form -/

theorem ofParts?_numbers (ht : t.Exists) (hy : t.HasShortYear) :
    ofParts? ⟨t.date.year.toNat, t.date.month, t.date.day⟩ (t.minute / 60) (t.minute % 60) t.second
      t.millisecond = some t := by
  obtain ⟨⟨hmonth, hmonth', hday, hday'⟩, hminute, hsecond, hmillisecond⟩ := ht
  obtain ⟨hyear, hyear'⟩ := hy
  have hcast : (t.date.year.toNat : Int) = t.date.year := Int.toNat_of_nonneg hyear
  have hcovers : Date.coversYear t.date.year = true := by
    unfold Date.coversYear
    simp only [Bool.and_eq_true, decide_eq_true_eq]
    omega
  unfold ofParts? Date.isValid
  dsimp only
  have hhour : t.minute / 60 ≤ 23 := by omega
  have hrest : t.minute % 60 ≤ 59 := by omega
  rw [hcast, hcovers]
  simp only [hmonth, hmonth', hday, hday', hhour, hrest, hsecond, decide_true, Bool.and_self,
    if_true, Nat.div_add_mod]

theorem fraction_fixed (h : n < 1000) (rest : List Char) :
    fraction ('.' :: (fixed 3 n ++ 'Z' :: rest)) = some (n, 'Z' :: rest) := by
  have hdigits : (fixed 3 n ++ 'Z' :: rest).takeWhile Char.isDigit = fixed 3 n := by
    rw [List.takeWhile_append_of_pos fun c hc => Text.isDigit_of_mem_fixed hc]
    exact (congrArg _ (List.takeWhile_cons_of_neg (by decide))).trans (List.append_nil _)
  have htake : (fixed 3 n).take 3 = fixed 3 n := List.take_of_length_le (by simp)
  have hvalue : Text.Numeral.valueFrom 0 (fixed 3 n) = n := Text.valueFrom_fixed h
  have hsome : (fixed 3 n).isEmpty = false := by
    rw [List.isEmpty_eq_false_iff, ← List.length_pos_iff, Text.length_fixed]
    decide
  simp only [fraction, hdigits, htake, hsome, Text.length_fixed, Nat.sub_self, List.replicate_zero,
    List.append_nil, hvalue, List.drop_left' (Text.length_fixed 3 n),
    Bool.false_eq_true, if_false]

/-- A normal form is read as a time in UTC. -/
theorem readZoned_text (ht : t.Exists) (hy : t.HasShortYear) :
    readZoned t.text.toList = some (t, 0) := by
  have hfits := fits_numbers ht hy
  simp only [Fits, layout, numbers, List.forall₂_cons, List.Forall₂.nil, and_true] at hfits
  obtain ⟨hyear, hmonth, hday, hhour, hminute, hsecond, hmillisecond⟩ := hfits
  rw [toList_text ht hy]
  unfold readZoned layout numbers rowOf
  simp only [rowOf, number_fixed hyear, number_fixed hmonth, number_fixed hday, number_fixed hhour,
    number_fixed hminute, number_fixed hsecond, expect_cons, Option.bind_eq_bind, Option.bind_some]
  have hutc : offset ['Z'] = some (0, []) := rfl
  rw [if_neg (by decide), fraction_fixed hmillisecond]
  simp only [hutc, Option.bind_some, List.isEmpty_nil, if_true, ofParts?_numbers ht hy,
    Option.map_some]

/-- **A normal form is read as the timestamp that it was written for.** -/
theorem parse?_text (ht : t.Exists) (hy : t.HasShortYear) : parse? t.text = some t := by
  have hutc : t.toUtc 0 = t := by
    have := ht.minute_lt
    unfold toUtc
    dsimp only
    rw [if_neg (by omega), if_neg (by omega)]
    congr 1
  unfold parse? readWithOffset
  simp only [readZoned_text ht hy, Option.map_some, hutc, Option.some_or]

/-! ## Signed years

The forms without an offset do not end with `Z`: none of the readers that they are made of takes it.
-/

theorem mem_drop {digits : List Char} (hbegin : digits <+: cs) (hdigits : ∀ c ∈ digits, c.isDigit)
    (hz : 'Z' ∈ cs) : 'Z' ∈ cs.drop digits.length := by
  rw [← List.prefix_iff_eq_append.1 hbegin, List.mem_append] at hz
  exact hz.resolve_left fun hz => absurd (hdigits 'Z' hz) (by decide)

theorem mem_of_number {least most : Nat} (h : number least most cs = some (n, rest))
    (hz : 'Z' ∈ cs) :
    'Z' ∈ rest := by
  unfold number at h
  dsimp only at h
  split at h
  · cases h
  obtain ⟨-, rfl⟩ := Prod.mk.inj (Option.some.inj h)
  exact mem_drop ((List.takeWhile_prefix _).trans (List.take_prefix ..))
    (fun c hc => List.mem_takeWhile_imp hc) hz

theorem mem_of_expect {c : Char} (hc : c ≠ 'Z') (h : expect c cs = some rest) (hz : 'Z' ∈ cs) :
    'Z' ∈ rest := by
  unfold expect at h
  split at h
  · split at h
    · rename_i hfirst
      obtain rfl := Option.some.inj h
      exact (List.mem_cons.1 hz).resolve_left fun hz => hc (hfirst.symm.trans hz.symm)
    · cases h
  · cases h

theorem mem_dropWhile_isBlank (hz : 'Z' ∈ cs) : 'Z' ∈ cs.dropWhile isBlank := by
  rw [← List.takeWhile_append_dropWhile (p := isBlank) (l := cs), List.mem_append] at hz
  exact hz.resolve_left fun hz => absurd (List.mem_takeWhile_imp hz) (by decide)

theorem mem_of_loose {most : Nat} (h : loose most cs = some (n, rest)) (hz : 'Z' ∈ cs) :
    'Z' ∈ rest :=
  mem_of_number h (mem_dropWhile_isBlank hz)

theorem mem_of_looseYear {year : Int} (h : looseYear cs = some (year, rest)) (hz : 'Z' ∈ cs) :
    'Z' ∈ rest := by
  have hsign {c : Char} {tail : List Char} (hc : c ≠ 'Z') (hcs : cs.dropWhile isBlank = c :: tail) :
      'Z' ∈ tail :=
    (List.mem_cons.1 (hcs ▸ mem_dropWhile_isBlank hz)).resolve_left (Ne.symm hc)
  unfold looseYear at h
  split at h
  · rename_i hcs
    obtain ⟨⟨_, _⟩, hnumber, h⟩ := Option.map_eq_some_iff.1 h
    obtain ⟨-, rfl⟩ := Prod.mk.inj h
    exact mem_of_number hnumber (hsign (by decide) hcs)
  · rename_i hcs
    obtain ⟨⟨_, _⟩, hnumber, h⟩ := Option.map_eq_some_iff.1 h
    obtain ⟨-, rfl⟩ := Prod.mk.inj h
    exact mem_of_number hnumber (hsign (by decide) hcs)
  · obtain ⟨⟨_, _⟩, hnumber, h⟩ := Option.map_eq_some_iff.1 h
    obtain ⟨-, rfl⟩ := Prod.mk.inj h
    exact mem_of_number hnumber (mem_dropWhile_isBlank hz)

theorem mem_of_readDate {date : Date} (h : readDate cs = some (date, rest)) (hz : 'Z' ∈ cs) :
    'Z' ∈ rest := by
  unfold readDate at h
  obtain ⟨⟨_, _⟩, hyear, h⟩ := Option.bind_eq_some_iff.1 h
  obtain ⟨_, hdash, h⟩ := Option.bind_eq_some_iff.1 h
  obtain ⟨⟨_, _⟩, hmonth, h⟩ := Option.bind_eq_some_iff.1 h
  obtain ⟨_, hdash', h⟩ := Option.bind_eq_some_iff.1 h
  obtain ⟨⟨_, _⟩, hday, h⟩ := Option.bind_eq_some_iff.1 h
  obtain ⟨-, rfl⟩ := Prod.mk.inj (Option.some.inj h)
  exact mem_of_loose hday (mem_of_expect (by decide) hdash'
    (mem_of_loose hmonth (mem_of_expect (by decide) hdash (mem_of_looseYear hyear hz))))

theorem mem_of_fraction (h : fraction cs = some (n, rest)) (hz : 'Z' ∈ cs) : 'Z' ∈ rest := by
  unfold fraction at h
  split at h
  · rename_i tail
    dsimp only at h
    split at h
    · cases h
    · obtain ⟨-, rfl⟩ := Prod.mk.inj (Option.some.inj h)
      exact mem_drop (List.takeWhile_prefix _) (fun c hc => List.mem_takeWhile_imp hc)
        ((List.mem_cons.1 hz).resolve_left (by decide))
  · obtain ⟨-, rfl⟩ := Prod.mk.inj (Option.some.inj h)
    exact hz

theorem readLocal_eq_none (hz : 'Z' ∈ cs) : readLocal cs = none := by
  refine Option.eq_none_iff_forall_ne_some.2 fun t h => ?_
  unfold readLocal at h
  obtain ⟨⟨date, _⟩, hdate, h⟩ := Option.bind_eq_some_iff.1 h
  obtain ⟨_, hmark, h⟩ := Option.bind_eq_some_iff.1 h
  obtain ⟨⟨hour, _⟩, hhour, h⟩ := Option.bind_eq_some_iff.1 h
  obtain ⟨_, hcolon, h⟩ := Option.bind_eq_some_iff.1 h
  obtain ⟨⟨minute, _⟩, hminute, h⟩ := Option.bind_eq_some_iff.1 h
  obtain ⟨_, hcolon', h⟩ := Option.bind_eq_some_iff.1 h
  obtain ⟨⟨second, _⟩, hsecond, h⟩ := Option.bind_eq_some_iff.1 h
  obtain ⟨⟨millisecond, _⟩, hfraction, h⟩ := Option.bind_eq_some_iff.1 h
  have hz := mem_of_loose hhour (mem_of_expect (by decide) hmark (mem_of_readDate hdate hz))
  have hz := mem_of_loose hminute (mem_of_expect (by decide) hcolon hz)
  have hz := mem_of_fraction hfraction
    (mem_of_loose hsecond (mem_of_expect (by decide) hcolon' hz))
  dsimp only at h
  split at h
  · rename_i hempty
    exact absurd hz (List.isEmpty_iff.1 hempty ▸ List.not_mem_nil)
  · cases h

theorem readDay_eq_none (hz : 'Z' ∈ cs) : readDay cs = none := by
  refine Option.eq_none_iff_forall_ne_some.2 fun t h => ?_
  unfold readDay at h
  obtain ⟨⟨date, _⟩, hdate, h⟩ := Option.bind_eq_some_iff.1 h
  dsimp only at h
  split at h
  · rename_i hempty
    exact absurd (mem_of_readDate hdate hz) (List.isEmpty_iff.1 hempty ▸ List.not_mem_nil)
  · cases h

/-- A sign is no digit of a year. -/
theorem readZoned_eq_none {c : Char} (hc : c.isDigit = false) : readZoned (c :: cs) = none := by
  have hnumber : number 4 4 (c :: cs) = none := by
    simp [number, hc]
  unfold readZoned
  rw [hnumber]
  rfl

/-- **The normal form of a timestamp in another year is not read.** -/
theorem parse?_text_eq_none (hy : ¬t.HasShortYear) : parse? t.text = none := by
  have hz : 'Z' ∈ t.text.toList := by simp [text]
  obtain ⟨sign, digits, hsign, hyear⟩ : ∃ sign digits, sign.isDigit = false ∧
      (yearText t.date.year).toList = sign :: digits := by
    by_cases hpast : t.date.year < 0
    · have hyear : yearText t.date.year = _ := (if_neg hy).trans (if_pos hpast)
      exact ⟨'-', _, rfl, congrArg String.toList hyear |>.trans String.toList_append⟩
    · have hyear : yearText t.date.year = _ := (if_neg hy).trans (if_neg hpast)
      exact ⟨'+', _, rfl, congrArg String.toList hyear |>.trans String.toList_append⟩
  obtain ⟨rest, htext⟩ : ∃ rest, t.text.toList = sign :: rest := by
    unfold text
    simp only [String.toList_append, hyear, List.append_assoc, List.cons_append]
    exact ⟨_, rfl⟩
  unfold parse? readWithOffset
  dsimp only
  rw [readLocal_eq_none hz, readDay_eq_none hz, htext, readZoned_eq_none hsign]
  rfl

/-- **A normal form is one of itself exactly if the year has four digits.** -/
theorem normalize?_text_iff (ht : t.Exists) :
    normalize? t.text = some t.text ↔ t.HasShortYear := by
  unfold normalize?
  constructor
  · intro hread
    by_contra hlong
    rw [parse?_text_eq_none hlong] at hread
    cases hread
  · intro hshort
    rw [parse?_text ht hshort]
    rfl

end ResourceApi.Timestamp
