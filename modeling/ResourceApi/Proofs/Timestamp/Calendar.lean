import Mathlib.Data.Nat.Init
import Mathlib.Order.Nat
import Mathlib.Tactic.SplitIfs
import ResourceApi.Timestamp

/-!
# The calendar

`Date.ordinal` counts the days since the first day of the year zero. It is a sum over years and
months, and does not follow from one day to the next. Still the day after a date has the next number
(`Date.ordinal_next`), and dates are in the order of their numbers (`Date.ordinal_lt_ordinal_iff`).
-/

namespace ResourceApi.Date

/-- There is such a day in the year. -/
structure Exists (d : Date) : Prop where
  month_pos : 1 ≤ d.month
  month_le : d.month ≤ 12
  day_pos : 1 ≤ d.day
  day_le : d.day ≤ daysInMonth d.year d.month

/-- The days from the beginning of the year zero to that of a year. -/
def daysBeforeYear (year : Int) : Int :=
  365 * year + (year + 3) / 4 - (year + 99) / 100 + (year + 399) / 400

/-- The days from the beginning of a year to that of a month. -/
def daysBeforeMonth (year : Int) : Nat → Nat
  | 0 | 1 => 0
  | month + 2 => daysBeforeMonth year (month + 1) + daysInMonth year (month + 1)

/-- The days from the beginning of the year zero to a date. -/
def ordinal (d : Date) : Int :=
  daysBeforeYear d.year + daysBeforeMonth d.year d.month + (d.day - 1)

variable {d e : Date} {year : Int} {month month' : Nat}

/-! ## Months -/

theorem daysBeforeMonth_succ (h : 1 ≤ month) :
    daysBeforeMonth year (month + 1) = daysBeforeMonth year month + daysInMonth year month := by
  obtain ⟨month, rfl⟩ := Nat.exists_eq_add_of_le' h
  rfl

theorem one_le_daysInMonth (year : Int) (month : Nat) : 1 ≤ daysInMonth year month := by
  unfold daysInMonth
  split_ifs <;> decide

/-- A month ends before a later one begins. -/
theorem daysBeforeMonth_add_le (hpos : 1 ≤ month) (h : month < month') :
    daysBeforeMonth year month + daysInMonth year month ≤ daysBeforeMonth year month' := by
  induction month', h using Nat.le_induction with
  | base => rw [Nat.succ_eq_add_one, daysBeforeMonth_succ hpos]
  | succ k hk ih =>
    rw [daysBeforeMonth_succ (by omega)]
    omega

theorem isLeapYear_iff : isLeapYear year ↔ year % 4 = 0 ∧ (year % 100 ≠ 0 ∨ year % 400 = 0) := by
  simp [isLeapYear]

/-- The months of a year make the year. -/
theorem daysBeforeYear_succ (year : Int) :
    daysBeforeYear (year + 1) = daysBeforeYear year + daysBeforeMonth year 13 := by
  have hmonths : daysBeforeMonth year 13 =
      0 + 31 + daysInMonth year 2 + 31 + 30 + 31 + 30 + 31 + 31 + 30 + 31 + 30 + 31 := rfl
  have hfebruary : daysInMonth year 2 = if isLeapYear year then 29 else 28 := if_pos rfl
  rw [hmonths, hfebruary]
  unfold daysBeforeYear
  split_ifs with hleap <;> rw [isLeapYear_iff] at hleap <;> omega

/-! ## Days -/

theorem Exists.next (h : d.Exists) : d.next.Exists := by
  obtain ⟨hm, hm', hd, hd'⟩ := h
  unfold Date.next
  split_ifs with hday hmonth
  · exact ⟨hm, hm', Nat.le_add_left 1 d.day, hday⟩
  · exact ⟨Nat.le_add_left 1 d.month, hmonth, Nat.le_refl 1, one_le_daysInMonth _ _⟩
  · exact ⟨Nat.le_refl 1, Nat.le_add_left 1 11, Nat.le_refl 1, one_le_daysInMonth _ _⟩

theorem Exists.previous (h : d.Exists) : d.previous.Exists := by
  obtain ⟨hm, hm', hd, hd'⟩ := h
  unfold Date.previous
  split_ifs with hday hmonth
  · exact ⟨hm, hm', Nat.le_sub_one_of_lt hday, (Nat.sub_le d.day 1).trans hd'⟩
  · exact ⟨Nat.le_sub_one_of_lt hmonth, (Nat.sub_le d.month 1).trans hm', one_le_daysInMonth _ _,
      Nat.le_refl _⟩
  · exact ⟨Nat.le_add_left 1 11, Nat.le_refl 12, Nat.le_add_left 1 30, Nat.le_refl 31⟩

/-- The day after a date has the next number. -/
theorem ordinal_next (h : d.Exists) : d.next.ordinal = d.ordinal + 1 := by
  obtain ⟨hm, hm', hd, hd'⟩ := h
  unfold Date.next
  split_ifs with hday hmonth
  · unfold ordinal
    dsimp only
    omega
  · have hlast : d.day = daysInMonth d.year d.month := by omega
    unfold ordinal
    dsimp only
    rw [daysBeforeMonth_succ hm]
    omega
  · have hlast : d.day = daysInMonth d.year d.month := by omega
    have hyear := daysBeforeYear_succ d.year
    rw [daysBeforeMonth_succ (by decide), show 12 = d.month by omega] at hyear
    unfold ordinal
    dsimp only
    rw [hyear]
    simp only [daysBeforeMonth]
    omega

/-- A date follows the day before it. -/
theorem next_previous (h : d.Exists) : d.previous.next = d := by
  obtain ⟨hm, hm', hd, hd'⟩ := h
  obtain ⟨year, month, day⟩ := d
  dsimp only at hm hm' hd hd'
  unfold Date.previous
  dsimp only
  split_ifs with hday hmonth
  · unfold Date.next
    rw [if_pos (by dsimp only; omega)]
    simp only [Date.mk.injEq, true_and]
    omega
  · unfold Date.next
    rw [if_neg (Nat.lt_irrefl _), if_pos (by dsimp only; omega)]
    simp only [Date.mk.injEq, true_and]
    omega
  · have hlast : daysInMonth (year - 1) 12 = 31 := rfl
    unfold Date.next
    rw [if_neg (by dsimp only; omega), if_neg (Nat.lt_irrefl 12)]
    simp only [Date.mk.injEq]
    omega

theorem ordinal_previous (h : d.Exists) : d.previous.ordinal = d.ordinal - 1 := by
  have hnext := ordinal_next h.previous
  rw [next_previous h] at hnext
  omega

/-! ## Order -/

theorem daysBeforeYear_mono {year' : Int} (h : year ≤ year') :
    daysBeforeYear year ≤ daysBeforeYear year' := by
  unfold daysBeforeYear
  omega

/-- A date is in its month. -/
theorem Exists.ordinal_lt (h : d.Exists) :
    d.ordinal <
      daysBeforeYear d.year + daysBeforeMonth d.year d.month + daysInMonth d.year d.month := by
  have := h.day_le
  unfold ordinal
  omega

theorem Exists.le_ordinal (h : d.Exists) :
    daysBeforeYear d.year + daysBeforeMonth d.year d.month ≤ d.ordinal := by
  have := h.day_pos
  unfold ordinal
  omega

/-- A date is in its year. -/
theorem Exists.daysBeforeYear_le (h : d.Exists) : daysBeforeYear d.year ≤ d.ordinal := by
  have := h.le_ordinal
  omega

theorem Exists.ordinal_lt_daysBeforeYear (h : d.Exists) :
    d.ordinal < daysBeforeYear (d.year + 1) := by
  have hmonth : daysBeforeMonth d.year d.month + daysInMonth d.year d.month ≤
      daysBeforeMonth d.year 13 := daysBeforeMonth_add_le h.month_pos (Nat.lt_succ_of_le h.month_le)
  have := h.ordinal_lt
  rw [daysBeforeYear_succ]
  omega

/-- A date comes before another, by year, month and day. -/
def Before (d e : Date) : Prop :=
  d.year < e.year ∨ d.year = e.year ∧ (d.month < e.month ∨ d.month = e.month ∧ d.day < e.day)

theorem ordinal_lt_of_before (hd : d.Exists) (he : e.Exists) (h : d.Before e) :
    d.ordinal < e.ordinal := by
  rcases h with hyear | ⟨hyear, hmonth | ⟨hmonth, hday⟩⟩
  · calc d.ordinal
      _ < daysBeforeYear (d.year + 1) := hd.ordinal_lt_daysBeforeYear
      _ ≤ daysBeforeYear e.year := daysBeforeYear_mono (Int.add_one_le_of_lt hyear)
      _ ≤ e.ordinal := he.daysBeforeYear_le
  · have hend : daysBeforeMonth d.year d.month + daysInMonth d.year d.month ≤
        daysBeforeMonth d.year e.month := daysBeforeMonth_add_le hd.month_pos hmonth
    have := hd.ordinal_lt
    have := he.le_ordinal
    rw [← hyear] at this
    omega
  · unfold ordinal
    rw [hyear, hmonth]
    omega

theorem eq_iff : d = e ↔ d.year = e.year ∧ d.month = e.month ∧ d.day = e.day := by
  cases d
  cases e
  exact Date.mk.injEq .. ▸ Iff.rfl

theorem before_trichotomy (d e : Date) : d.Before e ∨ d = e ∨ e.Before d := by
  rw [eq_iff]
  unfold Before
  omega

/-- **Dates are in the order of their numbers.** -/
theorem ordinal_lt_ordinal_iff (hd : d.Exists) (he : e.Exists) :
    d.ordinal < e.ordinal ↔ d.Before e := by
  refine ⟨fun h => ?_, ordinal_lt_of_before hd he⟩
  rcases before_trichotomy d e with hbefore | rfl | hafter
  · exact hbefore
  · exact absurd h (Int.lt_irrefl _)
  · exact absurd h (Int.not_lt_of_ge (Int.le_of_lt (ordinal_lt_of_before he hd hafter)))

theorem ordinal_inj (hd : d.Exists) (he : e.Exists) : d.ordinal = e.ordinal ↔ d = e := by
  refine ⟨fun h => ?_, congrArg ordinal⟩
  rcases before_trichotomy d e with hbefore | heq | hafter
  · exact absurd h (Int.ne_of_lt (ordinal_lt_of_before hd he hbefore))
  · exact heq
  · exact absurd h (Int.ne_of_gt (ordinal_lt_of_before he hd hafter))

end ResourceApi.Date
