import Mathlib.Data.String.Basic
import ResourceApi.Proofs.Double.Order
import ResourceApi.Proofs.Timestamp.NormalForm
import ResourceApi.Sql.Compare

/-!
# The order of stored times

The store keeps times as texts and compares them by code point.

**Theorem (`Timestamp.chronological`).** Texts that denote one instant have one normal form. In the
years of four digits the normal forms are in the order of the instants, for the store as well.

It is not so in other years, to which a time close to the end of the calendar gets when it is moved
to UTC: their normal forms begin with a sign, and a sign comes before every digit
(`Timestamp.chronological_reversed`).
-/

namespace ResourceApi

/-- The instant is in a year of four digits. -/
def Instant.InShortYear (i : Instant) : Prop :=
  0 ≤ (ofLex i).1 ∧ (ofLex i).1 < 1440 * Date.daysBeforeYear 10000

namespace Timestamp

variable {t : Timestamp} {a b na nb : String}

/-- What a column of times keeps of a text. -/
def kept (text : String) : SqlValue :=
  (Affinity.ofAttribute .datetime).store (.ofJson (.str text))

theorem compare_kept (a b : String) : (kept a).compare (kept b) = compare a b := by
  simp only [kept, Affinity.ofAttribute, Affinity.store, SqlValue.ofJson, Affinity.textual,
    SqlValue.compare]

theorem inShortYear_instant (ht : t.Exists) : t.instant.InShortYear ↔ t.HasShortYear := by
  have hfirst := ht.date.daysBeforeYear_le
  have hlast := ht.date.ordinal_lt_daysBeforeYear
  have hminute := ht.minute_lt
  unfold Instant.InShortYear HasShortYear instant instantAhead
  rw [ofLex_toLex]
  dsimp only
  unfold Date.daysBeforeYear at *
  omega

/-- **Times are kept in the order of the instants, in the years of four digits.** -/
theorem chronological (ha : normalize? a = some na) (hb : normalize? b = some nb) :
    ∃ i j, instant? a = some i ∧ instant? b = some j ∧ (i = j → na = nb) ∧
      (i.InShortYear → j.InShortYear →
        (na < nb ↔ i < j) ∧ (kept na).compare (kept nb) = compare i j) := by
  obtain ⟨t, ht, rfl⟩ := Option.map_eq_some_iff.1 ha
  obtain ⟨u, hu, rfl⟩ := Option.map_eq_some_iff.1 hb
  have htime := exists_of_parse? ht
  have htime' := exists_of_parse? hu
  refine ⟨t.instant, u.instant, by rw [instant?_eq, ht]; rfl, by rw [instant?_eq, hu]; rfl, ?_, ?_⟩
  · intro h
    rw [(instant_inj htime htime').1 h]
  · intro hi hj
    have hyear := (inShortYear_instant htime).1 hi
    have hyear' := (inShortYear_instant htime').1 hj
    have hlt := text_lt_text_iff htime htime' hyear hyear'
    rw [compare_kept]
    exact ⟨hlt, compare_congr hlt (text_lt_text_iff htime' htime hyear' hyear)⟩

/-- A time with an offset, and one of a millisecond later. -/
theorem chronological_march :
    normalize? "2024-03-01T10:00:00+02:00" = some "2024-03-01T08:00:00.000Z" ∧
    normalize? "2024-03-01T08:00:00.001" = some "2024-03-01T08:00:00.001Z" ∧
    ∃ i j, instant? "2024-03-01T10:00:00+02:00" = some i ∧
      instant? "2024-03-01T08:00:00.001" = some j ∧ i.InShortYear ∧ j.InShortYear ∧
      (i = j → "2024-03-01T08:00:00.000Z" = "2024-03-01T08:00:00.001Z") ∧
      ("2024-03-01T08:00:00.000Z" < "2024-03-01T08:00:00.001Z" ↔ i < j) ∧
      (kept "2024-03-01T08:00:00.000Z").compare (kept "2024-03-01T08:00:00.001Z") =
        compare i j := by
  have ha : normalize? "2024-03-01T10:00:00+02:00" = some "2024-03-01T08:00:00.000Z" := by
    decide +kernel
  have hb : normalize? "2024-03-01T08:00:00.001" = some "2024-03-01T08:00:00.001Z" := by
    decide +kernel
  obtain ⟨i, j, hi, hj, hsame, horder⟩ := chronological ha hb
  have hshort : i.InShortYear := by
    have hinstant : instant? "2024-03-01T10:00:00+02:00" = some (toLex (1064608320, 0)) := by
      decide +kernel
    obtain rfl := Option.some.inj (hi.symm.trans hinstant)
    exact ⟨by decide, by decide⟩
  have hshort' : j.InShortYear := by
    have hinstant : instant? "2024-03-01T08:00:00.001" = some (toLex (1064608320, 1)) := by
      decide +kernel
    obtain rfl := Option.some.inj (hj.symm.trans hinstant)
    exact ⟨by decide, by decide⟩
  exact ⟨ha, hb, i, j, hi, hj, hshort, hshort', hsame, horder hshort hshort'⟩

/-- A time at the end of the last year of four digits is in the next year in UTC, and comes before
the times of all years of four digits. -/
theorem chronological_reversed :
    normalize? "2024-03-01" = some "2024-03-01T00:00:00.000Z" ∧
    normalize? "9999-12-31T23:30:00-01:00" = some "+10000-01-01T00:30:00.000Z" ∧
    (∃ i j, instant? "2024-03-01" = some i ∧ instant? "9999-12-31T23:30:00-01:00" = some j ∧
      i < j) ∧
    "+10000-01-01T00:30:00.000Z" < "2024-03-01T00:00:00.000Z" ∧
    (kept "2024-03-01T00:00:00.000Z").compare (kept "+10000-01-01T00:30:00.000Z") = .gt := by
  refine ⟨by decide +kernel, by decide +kernel, ⟨toLex (1064607840, 0), toLex (5259492030, 0),
    by decide +kernel, by decide +kernel, by decide⟩, by decide, ?_⟩
  rw [compare_kept]
  decide +kernel

end Timestamp

end ResourceApi
