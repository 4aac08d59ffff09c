import ResourceApi.Engine.Basic
import ResourceApi.Proofs.Result
import ResourceApi.Proofs.Text.Uuid
import ResourceApi.Sql.Compare

/-!
# Identifiers in other spellings

An identifier comes in on a path, in a filter, as the identifier of a document or in its linkage.
The engine compares identifiers as values and the store compares them as texts.

**Theorem (`Schema.spellings_agree`).** Wherever a spelling of a UUID comes in, it is kept as it is
written. Two spellings of one UUID are therefore taken for the same identifier, by the engine as
well as by the store, exactly if they are written alike: in one form, and with the same letters as
capitals.
-/

namespace ResourceApi

open Text (Uuid.isSpelling Uuid.digits Uuid.WrittenAlike)

namespace Schema

/-- What the identifier is that a text stands for, wherever it comes in. -/
structure ReadsAs (schema : Schema) (raw : String) (id : Json) : Prop where
  path : schema.parseId? raw = some id
  /-- The identifier of a document and that of an element of linkage. -/
  document : schema.coerceId (.str raw) = .ok id
  filter : schema.coerceText schema.idField raw = .ok id

variable {schema : Schema} {raw a b : String}

theorem readsAs_of_parseId? {id : Json} (h : schema.parseId? raw = some id) :
    schema.ReadsAs raw id where
  path := h
  document := by
    unfold coerceId
    cases hkey : schema.idType <;> simp only [h]
  filter := by
    unfold coerceText
    rw [if_pos rfl, h]

/-- A spelling of a UUID is kept as it is written. -/
theorem readsAs_spelling (hkey : schema.idType = .uuid) (h : Uuid.isSpelling raw) :
    schema.ReadsAs raw (.str raw) := by
  refine readsAs_of_parseId? ?_
  unfold parseId?
  rw [hkey]
  exact if_pos h

end Schema

/-- Texts are equal to the store if they are the same. -/
theorem SqlValue.equals_text {a b : String} :
    (SqlValue.ofJson (.str a)).equals (.ofJson (.str b)) ↔ a = b := by
  simp [SqlValue.ofJson, SqlValue.equals, SqlValue.compare]

/-- A payload is for the row whose identifier it gives in the same text. -/
theorem Engine.checkPayloadId_text {schema : Schema} {payload : Payload} {a b : String}
    (h : payload.id = some (.str a)) :
    checkPayloadId schema (.str b) payload = .ok () ↔ a = b := by
  have hagrees : (Json.str a).agrees (.str b) = (a == b) := rfl
  unfold checkPayloadId
  rw [h]
  dsimp only
  rw [hagrees]
  by_cases hab : a = b <;> simp [hab]

namespace Schema

variable {schema : Schema} {a b : String}

/-- **Spellings of one UUID stand for one identifier exactly if they are written alike.** -/
theorem spellings_agree (hkey : schema.idType = .uuid) (ha : Uuid.isSpelling a)
    (hb : Uuid.isSpelling b) (hsame : Uuid.digits a = Uuid.digits b) :
    ∃ ida idb, schema.ReadsAs a ida ∧ schema.ReadsAs b idb ∧
      (ida = idb ↔ Uuid.WrittenAlike a b) ∧
      ((SqlValue.ofJson ida).equals (.ofJson idb) ↔ Uuid.WrittenAlike a b) ∧
      ∀ payload : Payload, payload.id = some ida →
        (Engine.checkPayloadId schema idb payload = .ok () ↔ Uuid.WrittenAlike a b) := by
  have halike := Text.Uuid.writtenAlike_iff ha hsame
  refine ⟨_, _, readsAs_spelling hkey ha, readsAs_spelling hkey hb, ?_, ?_, fun payload hid => ?_⟩
  · rw [halike, Json.str.injEq]
  · rw [halike, SqlValue.equals_text]
  · rw [halike, Engine.checkPayloadId_text hid]

/-- Notes, whose key is a UUID. -/
def plainNote : Schema where
  name := "Note"

/-- A UUID in the form in which identifiers are drawn. -/
def drawnSpelling : String := "6b0c1a3e-5b7f-4a55-9d3c-0d6b5a1f2e3d"

/-- The same UUID with capitals, in braces. -/
def bracedSpelling : String := "\x7b6B0C1A3E-5B7F-4A55-9D3C-0D6B5A1F2E3D\x7d"

/-- Two spellings that are not written alike stand for two identifiers. -/
theorem spellings_of_plainNote : plainNote.idType = .uuid ∧ Uuid.isSpelling drawnSpelling ∧
    Uuid.isSpelling bracedSpelling ∧ Uuid.digits drawnSpelling = Uuid.digits bracedSpelling ∧
    ∃ ida idb, plainNote.ReadsAs drawnSpelling ida ∧ plainNote.ReadsAs bracedSpelling idb ∧
      (ida = idb ↔ Uuid.WrittenAlike drawnSpelling bracedSpelling) ∧
      ((SqlValue.ofJson ida).equals (.ofJson idb) ↔
        Uuid.WrittenAlike drawnSpelling bracedSpelling) ∧
      ∀ payload : Payload, payload.id = some ida →
        (Engine.checkPayloadId plainNote idb payload = .ok () ↔
          Uuid.WrittenAlike drawnSpelling bracedSpelling) :=
  have ha : Uuid.isSpelling drawnSpelling := by decide +kernel
  have hb : Uuid.isSpelling bracedSpelling := by decide +kernel
  have hsame : Uuid.digits drawnSpelling = Uuid.digits bracedSpelling := by decide +kernel
  ⟨rfl, ha, hb, hsame, spellings_agree rfl ha hb hsame⟩

/-- The spellings of a UUID are told apart: by what they are read as, by the check of a payload, and
by the store. -/
theorem spellings_told_apart : plainNote.idType = .uuid ∧
    Uuid.isSpelling drawnSpelling ∧ Uuid.isSpelling bracedSpelling ∧
    Uuid.digits drawnSpelling = Uuid.digits bracedSpelling ∧
    plainNote.parseId? drawnSpelling ≠ plainNote.parseId? bracedSpelling ∧
    plainNote.coerceId (.str drawnSpelling) ≠ plainNote.coerceId (.str bracedSpelling) ∧
    plainNote.coerceText "id" drawnSpelling ≠ plainNote.coerceText "id" bracedSpelling ∧
    Engine.checkPayloadId plainNote (.str drawnSpelling)
      { Payload.ofAttributes plainNote [] with id := some (.str bracedSpelling) } =
        .error (Engine.wrongId plainNote (.str drawnSpelling)) ∧
    (SqlValue.ofJson (.str drawnSpelling)).equals (.ofJson (.str bracedSpelling)) = false := by
  decide +kernel

end Schema

end ResourceApi
