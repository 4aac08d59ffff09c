import ResourceApi.Proofs.Sql.JsonText
import ResourceApi.Store.Decode

/-!
# Values that JSON text keeps

JSON text keeps texts, and integers that the database can store. It keeps a number if the number can
be read from its text without a change, and it does not keep bytes. `SqlValue.Faithful` says when a
value in a column of some type is kept.

**Theorems (`Json.reread_eq`, `SqlValue.retype_untyped`).** A value all of whose numbers are kept is
read from its text as it was, with the members of objects in order. A stored value that came through
JSON text and whose type was restored is the value that a row shows.
-/

namespace ResourceApi

/-! ## Numbers -/

namespace Json

/-- A number that is read from its text as it was is finite. -/
theorem isFinite_of_rereadNumber {d : Double} (h : rereadNumber d = some (.float d)) :
    d.isFinite = true := by
  by_contra hd
  unfold rereadNumber numberText Double.signText at h
  rw [if_neg hd] at h
  split at h
  · have : readNumber ("-" ++ "9.0e+999").toList = none := by decide +kernel
    rw [this] at h
    cases h
  · have : readNumber ("" ++ "9.0e+999").toList = none := by decide +kernel
    rw [this] at h
    cases h

/-! ## Values in JSON text -/

mutual

/-- Every number in the value is read from its text as it was. -/
def Faithful : Json → Prop
  | float d => rereadNumber d = some (.float d)
  | arr items => AllFaithful items
  | obj members => MembersFaithful members
  | _ => True

/-- Every number in several values is read from its text as it was. -/
def AllFaithful : List Json → Prop
  | [] => True
  | item :: rest => Faithful item ∧ AllFaithful rest

/-- Every number in several members is read from its text as it was. -/
def MembersFaithful : List (String × Json) → Prop
  | [] => True
  | (_, value) :: rest => Faithful value ∧ MembersFaithful rest

end

mutual

/-- The value with the members of its objects in order. -/
def ordered : Json → Json
  | arr items => arr (orderedItems items)
  | obj members => obj (Object.ofList (orderedMembers members))
  | value => value

/-- Several values with the members of their objects in order. -/
def orderedItems : List Json → List Json
  | [] => []
  | item :: rest => ordered item :: orderedItems rest

/-- Several members with the members of their values in order. -/
def orderedMembers : List (String × Json) → List (String × Json)
  | [] => []
  | (key, value) :: rest => (key, ordered value) :: orderedMembers rest

end

theorem allFaithful_iff {items : List Json} : AllFaithful items ↔ ∀ item ∈ items, item.Faithful := by
  induction items with
  | nil => simp [AllFaithful]
  | cons item rest ih => simp [AllFaithful, ih]

theorem membersFaithful_iff {members : List (String × Json)} :
    MembersFaithful members ↔ ∀ member ∈ members, member.2.Faithful := by
  induction members with
  | nil => simp [MembersFaithful]
  | cons member rest ih => simp [MembersFaithful, ih]

theorem orderedItems_eq_map (items : List Json) : orderedItems items = items.map ordered := by
  induction items with
  | nil => rfl
  | cons item rest ih => rw [orderedItems, ih, List.map_cons]

theorem orderedMembers_eq_map (members : List (String × Json)) :
    orderedMembers members = members.map fun (key, value) => (key, value.ordered) := by
  induction members with
  | nil => rfl
  | cons member rest ih => rw [orderedMembers, ih, List.map_cons]

mutual

/-- **A value whose numbers are kept is read from its text as it was.** -/
theorem reread_eq (start : Nat) : ∀ {value : Json}, value.Faithful →
    ∃ stop, value.reread start = .ok (value.ordered, stop)
  | float d, h => ⟨_, by rw [reread, show rereadNumber d = _ from h]; rfl⟩
  | arr [], _ => ⟨_, by rw [reread]; rfl⟩
  | arr (item :: rest), h => by
    obtain ⟨stop, hi⟩ := rereadItems_eq (start + 1) h
    refine ⟨stop, ?_⟩
    rw [reread, hi]
    · rfl
    · nofun
  | obj [], _ => ⟨_, by rw [reread]; rfl⟩
  | obj (member :: rest), h => by
    obtain ⟨stop, hm⟩ := rereadMembers_eq (start + 1) h
    refine ⟨stop, ?_⟩
    rw [reread, hm]
    · rfl
    · nofun
  | null, _ => ⟨_, by rw [reread]; rfl⟩
  | bool _, _ => ⟨_, by rw [reread]; rfl⟩
  | int _, _ => ⟨_, by rw [reread]; rfl⟩
  | str _, _ => ⟨_, by rw [reread]; rfl⟩

theorem rereadItems_eq (start : Nat) : ∀ {items : List Json}, AllFaithful items →
    ∃ stop, rereadItems start items = .ok (orderedItems items, stop)
  | [], _ => ⟨_, by rw [rereadItems]; rfl⟩
  | item :: rest, ⟨hitem, hrest⟩ => by
    obtain ⟨stop, hv⟩ := reread_eq start hitem
    obtain ⟨stop', ho⟩ := rereadItems_eq (stop + 1) hrest
    exact ⟨stop', bind_eq_ok.2 ⟨_, hv, bind_eq_ok.2 ⟨_, ho, rfl⟩⟩⟩

theorem rereadMembers_eq (start : Nat) : ∀ {members : List (String × Json)},
    MembersFaithful members →
    ∃ stop, rereadMembers start members = .ok (orderedMembers members, stop)
  | [], _ => ⟨_, by rw [rereadMembers]; rfl⟩
  | (key, value) :: rest, ⟨hvalue, hrest⟩ => by
    obtain ⟨stop, hv⟩ := reread_eq (start + (quote key).utf8ByteSize + 1) hvalue
    obtain ⟨stop', ho⟩ := rereadMembers_eq (stop + 1) hrest
    exact ⟨stop', bind_eq_ok.2 ⟨_, hv, bind_eq_ok.2 ⟨_, ho, rfl⟩⟩⟩

end

theorem throughText_eq {value : Json} (h : value.Faithful) :
    value.throughText = .ok value.ordered := by
  obtain ⟨stop, hs⟩ := reread_eq 0 h
  rw [throughText, hs]
  rfl

end Json

/-! ## Stored values -/

namespace SqlValue

/-- A value that a column of this type can hold and that JSON text keeps. -/
def Faithful (type : ColumnType) : SqlValue → Prop
  | null | text _ => True
  | integer i => type ≠ .real ∧ i ≤ Text.Numeral.maxInt
  | real d => Json.rereadNumber d = some (.float d)
  | blob _ => False

instance (type : ColumnType) : (v : SqlValue) → Decidable (v.Faithful type)
  | null | text _ => .isTrue trivial
  | integer i => inferInstanceAs (Decidable (type ≠ .real ∧ i ≤ Text.Numeral.maxInt))
  | real d => inferInstanceAs (Decidable (Json.rereadNumber d = some (.float d)))
  | blob _ => .isFalse id

variable {type : ColumnType} {v : SqlValue}

theorem Faithful.untyped (h : v.Faithful type) : v.untyped.Faithful := by
  cases v with
  | real d => exact h
  | blob bytes => exact h.elim
  | _ => trivial

/-- Values of columns are no objects, so nothing is put in order. -/
theorem ordered_untyped (v : SqlValue) : v.untyped.ordered = v.untyped := by
  cases v <;> rfl

/-- **A value whose type was restored is the one that a row shows.** -/
theorem retype_untyped (h : v.Faithful type) : retype type v.untyped = v.toJson type := by
  cases v with
  | null | text s => cases type <;> rfl
  | integer i =>
    obtain ⟨hreal, hi⟩ := h
    cases type with
    | boolean => exact if_pos hi
    | real => exact absurd rfl hreal
    | text | integer => rfl
  | real d =>
    have hd := Json.isFinite_of_rereadNumber h
    have hshown : (real d).toJson type = .float d := if_pos hd
    rw [hshown]
    cases type <;> rfl
  | blob bytes => exact h.elim

/-- To restore a type twice is to restore it once. -/
theorem retype_retype (type : ColumnType) (value : Json) :
    retype type (retype type value) = retype type value := by
  cases type with
  | boolean =>
    cases value with
    | int i =>
      by_cases hi : i ≤ Text.Numeral.maxInt
      · rw [show retype .boolean (.int i) = .bool (i != 0) from if_pos hi]
        rfl
      · rw [show retype .boolean (.int i) = .int i from if_neg hi]
        exact if_neg hi
    | _ => rfl
  | _ => rfl

end SqlValue

/-- Every value in a schema's table is one that its column can hold and that JSON text keeps. -/
def Database.Faithful (db : Database) (r : Registry) : Prop :=
  ∀ schema ∈ r.schemas, ∀ row ∈ db.rows schema.tableName, ∀ c ∈ r.columns schema,
    (row.get c.column).Faithful c.type

instance (db : Database) (r : Registry) : Decidable (db.Faithful r) :=
  inferInstanceAs (Decidable (∀ schema ∈ r.schemas, ∀ row ∈ db.rows schema.tableName,
    ∀ c ∈ r.columns schema, (row.get c.column).Faithful c.type))

end ResourceApi
