import Mathlib.Data.List.Induction
import Mathlib.Data.Prod.Lex
import Mathlib.Tactic.Set
import ResourceApi.Proofs.Text.Fixed
import ResourceApi.Proofs.Timestamp.Calendar

/-!
# Instants

What a text denotes is told apart from how it is kept. An `Instant` counts minutes, and milliseconds
in the minute, so that a leap second comes between its minute and the next one. A local time that is
ahead of UTC is that much earlier.

**Theorem (`Timestamp.instant?_eq`).** The timestamp that a text is read as is that of the instant
that the text denotes.

The timestamps that are read have days that exist and times of a day (`Timestamp.Exists`), and each
instant has one of them at most (`Timestamp.instant_inj`).
-/

namespace ResourceApi

/-- A minute, counted from the beginning of the year zero, and a millisecond in it. -/
abbrev Instant := Int ×ₗ Nat

namespace Timestamp

open ResourceApi.Text (isBlank)
open ResourceApi.Text.Numeral (valueFrom)

/-- There is such a millisecond. A minute may have a leap second. -/
structure Exists (t : Timestamp) : Prop where
  date : t.date.Exists
  minute_lt : t.minute < 1440
  second_le : t.second ≤ 60
  millisecond_lt : t.millisecond < 1000

/-- The instant of a local time that is some minutes ahead of UTC. -/
def instantAhead (t : Timestamp) (offset : Int) : Instant :=
  toLex (1440 * t.date.ordinal + t.minute - offset, 1000 * t.second + t.millisecond)

/-- The instant of a time in UTC. -/
def instant (t : Timestamp) : Instant := t.instantAhead 0

/-- The instant that a text denotes. -/
def instant? (s : String) : Option Instant :=
  ((readZoned s.toList).map fun (t, offset) => t.instantAhead offset).or
    (((readLocal s.toList).or (readDay s.toList)).map instant)

variable {t u : Timestamp} {cs rest : List Char} {n : Nat}

/-! ## Moving to UTC -/

theorem Exists.toUtc {offset : Int} (h : t.Exists) (hoffset : -1440 < offset ∧ offset < 1440) :
    (t.toUtc offset).Exists := by
  obtain ⟨hdate, hminute, hsecond, hmillisecond⟩ := h
  unfold Timestamp.toUtc
  dsimp only
  split_ifs
  · exact ⟨hdate.previous, by dsimp only; omega, hsecond, hmillisecond⟩
  · exact ⟨hdate.next, by dsimp only; omega, hsecond, hmillisecond⟩
  · exact ⟨hdate, by dsimp only; omega, hsecond, hmillisecond⟩

/-- A local time and the same time in UTC are one instant. -/
theorem instant_toUtc {offset : Int} (h : t.Exists) (hoffset : -1440 < offset ∧ offset < 1440) :
    (t.toUtc offset).instant = t.instantAhead offset := by
  have hminute := h.minute_lt
  unfold Timestamp.toUtc
  dsimp only
  split_ifs
  · refine congrArg toLex (Prod.ext ?_ rfl)
    dsimp only
    rw [Date.ordinal_previous h.date]
    omega
  · refine congrArg toLex (Prod.ext ?_ rfl)
    dsimp only
    rw [Date.ordinal_next h.date]
    omega
  · refine congrArg toLex (Prod.ext ?_ rfl)
    dsimp only
    omega

/-! ## What is read -/

theorem digitValue_lt {c : Char} (h : c.isDigit) : Text.Numeral.digitValue c < 10 := by
  simp only [Char.isDigit, Bool.and_eq_true, decide_eq_true_eq, ge_iff_le,
    UInt32.le_iff_toNat_le] at h
  have hle : c.toNat ≤ 57 := h.2
  have hzero : '0'.toNat = 48 := rfl
  unfold Text.Numeral.digitValue
  omega

theorem valueFrom_lt {digits : List Char} (h : ∀ c ∈ digits, c.isDigit) :
    valueFrom 0 digits < 10 ^ digits.length := by
  induction digits using List.reverseRecOn with
  | nil => decide
  | append_singleton digits c ih =>
    obtain ⟨hdigits, hc⟩ := List.forall_mem_append.1 h
    have hvalue := digitValue_lt (hc c (List.mem_singleton_self c))
    have hrest := ih hdigits
    rw [Text.valueFrom_append, List.length_append, List.length_singleton, Nat.pow_succ]
    show 10 * valueFrom 0 digits + Text.Numeral.digitValue c < _
    omega

theorem number_lt {least most : Nat} (h : number least most cs = some (n, rest)) :
    n < 10 ^ most := by
  unfold number at h
  dsimp only at h
  split at h
  · cases h
  · obtain ⟨rfl, -⟩ := Prod.mk.inj (Option.some.inj h)
    refine (valueFrom_lt fun c hc => List.mem_takeWhile_imp hc).trans_le ?_
    exact Nat.pow_le_pow_right (by decide)
      (((List.takeWhile_prefix _).length_le).trans (List.length_take_le ..))

theorem fraction_lt (h : fraction cs = some (n, rest)) : n < 1000 := by
  unfold fraction at h
  split at h
  · rename_i tail
    dsimp only at h
    split at h
    · cases h
    · obtain ⟨rfl, -⟩ := Prod.mk.inj (Option.some.inj h)
      set first := (tail.takeWhile Char.isDigit).take 3 with hfirst
      have hthree : (first ++ List.replicate (3 - first.length) '0').length = 3 := by
        have : first.length ≤ 3 := List.length_take_le 3 _
        rw [List.length_append, List.length_replicate]
        omega
      have hdigits : ∀ c ∈ first ++ List.replicate (3 - first.length) '0', c.isDigit := by
        refine List.forall_mem_append.2 ⟨fun c hc => ?_, fun c hc => ?_⟩
        · exact List.mem_takeWhile_imp (List.mem_of_mem_take hc)
        · rw [List.eq_of_mem_replicate hc]
          rfl
      have hvalue := valueFrom_lt hdigits
      rwa [hthree] at hvalue
  · obtain ⟨rfl, -⟩ := Prod.mk.inj (Option.some.inj h)
    decide

/-- The offset is less than a day. -/
theorem offset_bounds {minutes : Int} (h : offset cs = some (minutes, rest)) :
    -1440 < minutes ∧ minutes < 1440 := by
  unfold offset at h
  split at h
  · cases h
  · split at h
    · obtain ⟨rfl, -⟩ := Prod.mk.inj (Option.some.inj h)
      decide
    · obtain ⟨negative, -, h⟩ := Option.bind_eq_some_iff.1 h
      obtain ⟨⟨hours, _⟩, -, h⟩ := Option.bind_eq_some_iff.1 h
      obtain ⟨_, -, h⟩ := Option.bind_eq_some_iff.1 h
      obtain ⟨⟨minutes', _⟩, -, h⟩ := Option.bind_eq_some_iff.1 h
      dsimp only at h
      split at h
      · cases h
      · obtain ⟨rfl, -⟩ := Prod.mk.inj (Option.some.inj h)
        split <;> omega

theorem exists_of_ofParts? {date : Date} {hour minute second millisecond : Nat}
    (hm : millisecond < 1000) (h : ofParts? date hour minute second millisecond = some t) :
    t.Exists ∧ t.date = date := by
  unfold ofParts? at h
  split at h
  · rename_i hvalid
    obtain rfl := Option.some.inj h
    simp only [Date.isValid, Bool.and_eq_true, decide_eq_true_eq] at hvalid
    obtain ⟨⟨⟨⟨⟨-, hmonth, hmonth'⟩, hday, hday'⟩, hhour⟩, hminute⟩, hsecond⟩ := hvalid
    exact ⟨⟨⟨hmonth, hmonth', hday, hday'⟩, by dsimp only; omega, hsecond, hm⟩, rfl⟩
  · cases h

/-- A local time with an offset has a year of four digits. -/
theorem exists_of_readZoned {offset : Int} (h : readZoned cs = some (t, offset)) :
    t.Exists ∧ (-1440 < offset ∧ offset < 1440) ∧ 0 ≤ t.date.year ∧ t.date.year ≤ 9999 := by
  unfold readZoned at h
  obtain ⟨⟨year, _⟩, hyear, h⟩ := Option.bind_eq_some_iff.1 h
  obtain ⟨_, -, h⟩ := Option.bind_eq_some_iff.1 h
  obtain ⟨⟨month, _⟩, -, h⟩ := Option.bind_eq_some_iff.1 h
  obtain ⟨_, -, h⟩ := Option.bind_eq_some_iff.1 h
  obtain ⟨⟨day, _⟩, -, h⟩ := Option.bind_eq_some_iff.1 h
  dsimp only at h
  split at h
  · cases h
  split at h
  · cases h
  obtain ⟨⟨hour, _⟩, -, h⟩ := Option.bind_eq_some_iff.1 h
  obtain ⟨_, -, h⟩ := Option.bind_eq_some_iff.1 h
  obtain ⟨⟨minute, _⟩, -, h⟩ := Option.bind_eq_some_iff.1 h
  obtain ⟨_, -, h⟩ := Option.bind_eq_some_iff.1 h
  obtain ⟨⟨second, _⟩, -, h⟩ := Option.bind_eq_some_iff.1 h
  obtain ⟨⟨millisecond, _⟩, hfraction, h⟩ := Option.bind_eq_some_iff.1 h
  obtain ⟨⟨ahead, _⟩, hoffset, h⟩ := Option.bind_eq_some_iff.1 h
  dsimp only at h
  split at h
  · obtain ⟨t', hparts, h⟩ := Option.map_eq_some_iff.1 h
    obtain ⟨rfl, rfl⟩ := Prod.mk.inj h
    obtain ⟨hexists, hdate⟩ := exists_of_ofParts? (fraction_lt hfraction) hparts
    have := number_lt hyear
    rw [hdate]
    exact ⟨hexists, offset_bounds hoffset, by dsimp only; omega, by dsimp only; omega⟩
  · cases h

theorem exists_of_readLocal (h : readLocal cs = some t) : t.Exists := by
  unfold readLocal at h
  obtain ⟨⟨date, _⟩, -, h⟩ := Option.bind_eq_some_iff.1 h
  obtain ⟨_, -, h⟩ := Option.bind_eq_some_iff.1 h
  obtain ⟨⟨hour, _⟩, -, h⟩ := Option.bind_eq_some_iff.1 h
  obtain ⟨_, -, h⟩ := Option.bind_eq_some_iff.1 h
  obtain ⟨⟨minute, _⟩, -, h⟩ := Option.bind_eq_some_iff.1 h
  obtain ⟨_, -, h⟩ := Option.bind_eq_some_iff.1 h
  obtain ⟨⟨second, _⟩, -, h⟩ := Option.bind_eq_some_iff.1 h
  obtain ⟨⟨millisecond, _⟩, hfraction, h⟩ := Option.bind_eq_some_iff.1 h
  dsimp only at h
  split at h
  · exact (exists_of_ofParts? (fraction_lt hfraction) h).1
  · cases h

theorem exists_of_readDay (h : readDay cs = some t) : t.Exists := by
  unfold readDay at h
  obtain ⟨⟨date, _⟩, -, h⟩ := Option.bind_eq_some_iff.1 h
  dsimp only at h
  split at h
  · exact (exists_of_ofParts? (by decide) h).1
  · cases h

/-- A text is read as a time that exists. -/
theorem exists_of_parse? {s : String} (h : parse? s = some t) : t.Exists := by
  unfold parse? readWithOffset at h
  rcases Option.or_eq_some_iff.1 h with h | ⟨-, h⟩
  · obtain ⟨⟨local', offset⟩, hzoned, rfl⟩ := Option.map_eq_some_iff.1 h
    obtain ⟨hexists, hoffset, -⟩ := exists_of_readZoned hzoned
    exact hexists.toUtc hoffset
  · rcases Option.or_eq_some_iff.1 h with h | ⟨-, h⟩
    · exact exists_of_readLocal h
    · exact exists_of_readDay h

/-- **A text is read as the time of the instant that it denotes.** -/
theorem instant?_eq (s : String) : instant? s = (parse? s).map instant := by
  unfold instant? parse? readWithOffset
  dsimp only
  rw [Option.map_or, Option.map_or, Option.map_or, Option.map_map]
  congr 1
  refine Option.map_congr fun ⟨t, offset⟩ h => ?_
  obtain ⟨hexists, hoffset, -⟩ := exists_of_readZoned h
  exact (instant_toUtc hexists hoffset).symm

/-! ## Order of times -/

/-- A time comes before another. -/
theorem instant_lt_iff (ht : t.Exists) (hu : u.Exists) : t.instant < u.instant ↔
    t.date.Before u.date ∨ t.date = u.date ∧
      (t.minute < u.minute ∨ t.minute = u.minute ∧
        (t.second < u.second ∨ t.second = u.second ∧ t.millisecond < u.millisecond)) := by
  have hminute := ht.minute_lt
  have hminute' := hu.minute_lt
  have hmillisecond := ht.millisecond_lt
  have hmillisecond' := hu.millisecond_lt
  rw [← Date.ordinal_lt_ordinal_iff ht.date hu.date, ← Date.ordinal_inj ht.date hu.date,
    Prod.Lex.lt_iff]
  simp only [instant, instantAhead, ofLex_toLex]
  omega

/-- An instant has one time. -/
theorem instant_inj (ht : t.Exists) (hu : u.Exists) : t.instant = u.instant ↔ t = u := by
  refine ⟨fun h => ?_, congrArg instant⟩
  have hminute := ht.minute_lt
  have hminute' := hu.minute_lt
  have hmillisecond := ht.millisecond_lt
  have hmillisecond' := hu.millisecond_lt
  obtain ⟨hfirst, hsecond⟩ := Prod.mk.inj (toLex.injective h)
  have hdate : t.date = u.date := (Date.ordinal_inj ht.date hu.date).1 (by omega)
  obtain ⟨date, minute, second, millisecond⟩ := t
  obtain ⟨date', minute', second', millisecond'⟩ := u
  dsimp only at hdate hfirst hsecond hmillisecond hmillisecond'
  subst hdate
  simp only [Timestamp.mk.injEq, true_and]
  omega

end Timestamp

end ResourceApi
