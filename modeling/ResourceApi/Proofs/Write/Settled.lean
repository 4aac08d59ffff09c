import ResourceApi.Proofs.Double.Written
import ResourceApi.Proofs.Timestamp.Chronology
import ResourceApi.Proofs.Write.Admitted

/-!
# Coerced values given again

A value that is kept for an attribute may be given again: in a document, or as text in a filter.

**Theorem (`Attribute.settled`).** What a document's value is coerced to is coerced to itself, and
so is each text of it, unless it is a time that is not in a year of four digits.

Numbers are read from the texts in which they are written, bit by bit (`Double.float?_compact`). The
normal form of a time in another year begins with a sign, and is refused as a time
(`Attribute.settled_refused`).
-/

namespace ResourceApi

/-- A text of a value: the string itself, or what is written for a number or a boolean. -/
inductive Json.Renders : Json → String → Prop
  | str (s : String) : Renders (.str s) s
  | bool (b : Bool) : Renders (.bool b) (if b then "true" else "false")
  | int (i : Int) : Renders (.int i) (toString i)
  | compact (d : Double) : Renders (.float d) d.compact
  | plain (d : Double) : Renders (.float d) d.plain

namespace Attribute

variable {schema : Schema} {a : Attribute} {value written : Json} {text : String}

/-- A value of an attribute for times is in a year of four digits. -/
def InShortYear (a : Attribute) (value : Json) : Prop :=
  a.type = .datetime → ∀ raw i, value = .str raw → Timestamp.instant? raw = some i → i.InShortYear

theorem coerceText_eq_ok_iff (hfield : schema.attribute? a.name = some a)
    (hkey : a.name ≠ schema.idField) :
    schema.coerceText a.name text = .ok written ↔ a.type.ofText? text = some written := by
  unfold Schema.coerceText
  rw [if_neg hkey, hfield]
  dsimp only
  cases a.type.ofText? text <;> simp

/-- A value other than a time is read from its text. -/
theorem ofText?_of_fits (htime : a.type ≠ .datetime) (h : a.Fits value)
    (htext : value.Renders text) :
    a.type.ofText? text = some value := by
  unfold Fits at h
  split at h
  case h_1 s htype | h_2 s htype =>
    cases htext
    rw [htype]
    rfl
  case h_3 i htype =>
    cases htext
    rw [htype, AttributeType.ofText?, Text.Numeral.int?_toString_int ⟨h.1, h.2.1⟩]
    rfl
  case h_4 d htype =>
    rw [htype, AttributeType.ofText?]
    cases htext with
    | compact => rw [Double.float?_compact h.1, Option.map_some]
    | plain => rw [Double.float?_plain h.1, Option.map_some]
  case h_5 b htype =>
    cases htext
    rw [htype]
    cases b <;> rfl
  case h_6 htype => exact absurd htype htime
  case h_7 s htype | h_8 s htype =>
    cases htext
    rw [htype]
    exact if_pos h
  case h_9 => exact h.elim

/-- A time is read from its normal form exactly in the years of four digits. -/
theorem normalize?_normal {raw normal : String} (h : Timestamp.normalize? raw = some normal) :
    Timestamp.normalize? normal = some normal ↔
      ∀ i, Timestamp.instant? raw = some i → i.InShortYear := by
  obtain ⟨t, ht, rfl⟩ := Option.map_eq_some_iff.1 h
  have hexists := Timestamp.exists_of_parse? ht
  have hinstant : Timestamp.instant? raw = some t.instant := by
    rw [Timestamp.instant?_eq, ht]
    rfl
  have hyear : (∀ i, Timestamp.instant? raw = some i → i.InShortYear) ↔ t.HasShortYear := by
    rw [← Timestamp.inShortYear_instant hexists, hinstant]
    exact ⟨fun h => h _ rfl, fun h i hi => Option.some.inj hi ▸ h⟩
  rw [hyear]
  exact Timestamp.normalize?_text_iff hexists

/-- A time is coerced to its normal form. -/
theorem exists_normal (htype : a.type = .datetime) (h : a.coerce value = .ok written) :
    ∃ raw normal, value = .str raw ∧ Timestamp.normalize? raw = some normal ∧
      written = .str normal := by
  cases value with
  | str raw =>
    rw [coerce_datetime htype] at h
    cases hnormal : Timestamp.normalize? raw with
    | none =>
      rw [hnormal] at h
      cases h
    | some normal =>
      rw [hnormal] at h
      exact ⟨raw, normal, rfl, hnormal, (Except.ok.inj h).symm⟩
  | _ =>
    unfold coerce at h
    rw [htype] at h
    cases h

/-- **A coerced value is coerced to itself, and read from its text, unless it is a time in a year
that has not four digits.** -/
theorem settled (hr : value.IsRanged) (h : a.coerce value = .ok written) :
    (a.coerce written = .ok written ↔ a.InShortYear value) ∧
    ∀ text, written.Renders text → schema.attribute? a.name = some a → a.name ≠ schema.idField →
      (schema.coerceText a.name text = .ok written ↔ a.InShortYear value) := by
  by_cases htype : a.type = .datetime
  · obtain ⟨raw, normal, rfl, hnormal, rfl⟩ := exists_normal htype h
    have hyear : a.InShortYear (.str raw) ↔ Timestamp.normalize? normal = some normal := by
      rw [normalize?_normal hnormal]
      refine ⟨fun h i hi => h htype raw i rfl hi, fun h _ raw' i hraw hi => h i ?_⟩
      rw [Json.str.inj hraw, hi]
    rw [hyear]
    refine ⟨?_, fun text htext hfield hkey => ?_⟩
    · rw [coerce_datetime htype]
      cases Timestamp.normalize? normal <;> simp
    · cases htext
      rw [coerceText_eq_ok_iff hfield hkey, htype, AttributeType.ofText?]
      cases Timestamp.normalize? normal <;> simp
  · have hfits := fits_of_coerce hr h
    have hyear : a.InShortYear value := fun htime => absurd htime htype
    refine ⟨iff_of_true (coerce_of_fits htype hfits).2 hyear, fun text htext hfield hkey => ?_⟩
    rw [coerceText_eq_ok_iff hfield hkey]
    exact iff_of_true (ofText?_of_fits htype hfits htext) hyear

/-- When a meeting starts. -/
def meetingStart : Attribute := { name := "start", type := .datetime }

/-- The start of a meeting is read from its normal form. -/
theorem settled_meetingStart : (Json.str "2024-03-01T10:00:00+02:00").IsRanged ∧
    meetingStart.coerce (.str "2024-03-01T10:00:00+02:00") =
      .ok (.str "2024-03-01T08:00:00.000Z") ∧
    meetingStart.InShortYear (.str "2024-03-01T10:00:00+02:00") ∧
    meetingStart.coerce (.str "2024-03-01T08:00:00.000Z") =
      .ok (.str "2024-03-01T08:00:00.000Z") ∧
    meeting.attribute? meetingStart.name = some meetingStart ∧
    meetingStart.name ≠ meeting.idField ∧
    meeting.coerceText meetingStart.name "2024-03-01T08:00:00.000Z" =
      .ok (.str "2024-03-01T08:00:00.000Z") := by
  have hr : (Json.str "2024-03-01T10:00:00+02:00").IsRanged := trivial
  have hcoerce : meetingStart.coerce (.str "2024-03-01T10:00:00+02:00") =
      .ok (.str "2024-03-01T08:00:00.000Z") := by decide +kernel
  have hyear : meetingStart.InShortYear (.str "2024-03-01T10:00:00+02:00") := by
    rintro - raw i ⟨⟩ hi
    have hinstant : Timestamp.instant? "2024-03-01T10:00:00+02:00" =
        some (toLex (1064608320, 0)) := by decide +kernel
    obtain rfl := Option.some.inj (hi.symm.trans hinstant)
    exact ⟨by decide, by decide⟩
  have hfield : meeting.attribute? meetingStart.name = some meetingStart := by decide +kernel
  have hkey : meetingStart.name ≠ meeting.idField := by decide +kernel
  obtain ⟨hagain, htext⟩ := settled hr hcoerce
  exact ⟨hr, hcoerce, hyear, hagain.2 hyear, hfield, hkey,
    (htext _ (.str _) hfield hkey).2 hyear⟩

/-- A start at the end of the last year of four digits is kept as a text that is no time. -/
theorem settled_refused : meeting.attribute? "start" = some meetingStart ∧
    meetingStart.coerce (.str "9999-12-31T23:30:00-01:00") =
      .ok (.str "+10000-01-01T00:30:00.000Z") ∧
    meetingStart.coerce (.str "+10000-01-01T00:30:00.000Z") =
      .error (.wrongType "start" .datetime) ∧
    meeting.coerceText "start" "+10000-01-01T00:30:00.000Z" =
      .error (.wrongType "start" .datetime) := by
  decide +kernel

end Attribute

end ResourceApi
