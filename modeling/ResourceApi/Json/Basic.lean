import ResourceApi.Double.Basic

/-!
# JSON values

Numbers are integers or floating point numbers, and the two never mix: `3` and `3.0` are
different values. The members of an object are kept in the order of their keys, and no key
occurs twice; `Object.insert` keeps both.
-/

namespace ResourceApi

/-- A JSON value. -/
inductive Json where
  | null
  | bool (b : Bool)
  | int (i : Int)
  | float (d : Double)
  | str (s : String)
  | arr (items : List Json)
  | obj (members : List (String × Json))
  deriving Inhabited, Repr

/-- The members of an object, in the order of their keys. -/
abbrev Object := List (String × Json)

namespace Object

/-- The value of a key. -/
def get? (key : String) : Object → Option Json
  | [] => none
  | (k, v) :: rest => if k = key then some v else get? key rest

/-- Whether a key is present. -/
def has (key : String) (o : Object) : Bool := (o.get? key).isSome

/-- Sets the value of a key, at the place of the key in the order. -/
def insert (key : String) (value : Json) : Object → Object
  | [] => [(key, value)]
  | (k, v) :: rest =>
    if key = k then (key, value) :: rest
    else if key < k then (key, value) :: (k, v) :: rest
    else (k, v) :: insert key value rest

/-- The object with the given members; a later member replaces an earlier one of its key. -/
def ofList (members : List (String × Json)) : Object :=
  members.foldl (fun o (k, v) => insert k v o) []

/-- The keys, in order. -/
def keys (o : Object) : List String := o.map (·.1)

@[simp] theorem get?_insert_self (key : String) (value : Json) (o : Object) :
    (o.insert key value).get? key = some value := by
  induction o with
  | nil => simp [insert, get?]
  | cons m rest ih =>
    obtain ⟨k, v⟩ := m
    simp only [insert]
    split
    · simp [get?]
    · split
      · simp [get?]
      · rename_i h _
        simp [get?, Ne.symm h, ih]

theorem get?_insert_of_ne {key other : String} (h : key ≠ other) (value : Json) (o : Object) :
    (o.insert key value).get? other = o.get? other := by
  induction o with
  | nil => simp [insert, get?, h]
  | cons m rest ih =>
    obtain ⟨k, v⟩ := m
    simp only [insert]
    split
    · rename_i hk
      subst hk
      simp [get?, h]
    · split
      · simp [get?, h]
      · simp [get?, ih]

end Object

namespace Json

/-- The members of an object. -/
def asObject? : Json → Option Object
  | obj members => some members
  | _ => none

/-- The elements of an array. -/
def asArray? : Json → Option (List Json)
  | arr items => some items
  | _ => none

/-- The text of a string. -/
def asString? : Json → Option String
  | str s => some s
  | _ => none

/-- Whether the value is `null`. -/
def isNull : Json → Bool
  | null => true
  | _ => false

/-- The value of a member; values other than objects have none. -/
def get? (key : String) : Json → Option Json
  | obj members => Object.get? key members
  | _ => none

/-- The value of a member, `null` where there is none. -/
def getD (key : String) (value : Json) : Json := (value.get? key).getD null

/-! ## Equality -/

mutual

/-- Decides whether two values are the same. -/
def beq : Json → Json → Bool
  | null, null => true
  | bool a, bool b => a == b
  | int a, int b => a == b
  | float a, float b => a == b
  | str a, str b => a == b
  | arr a, arr b => beqItems a b
  | obj a, obj b => beqMembers a b
  | _, _ => false

/-- Decides whether two lists of values are the same. -/
def beqItems : List Json → List Json → Bool
  | [], [] => true
  | a :: as, b :: bs => beq a b && beqItems as bs
  | _, _ => false

/-- Decides whether two lists of members are the same. -/
def beqMembers : List (String × Json) → List (String × Json) → Bool
  | [], [] => true
  | (k, a) :: as, (l, b) :: bs => k == l && (beq a b && beqMembers as bs)
  | _, _ => false

end

mutual

theorem eq_of_beq : ∀ {a b : Json}, beq a b = true → a = b
  | null, b, h => by cases b <;> simp_all [beq]
  | bool a, b, h => by cases b <;> simp_all [beq]
  | int a, b, h => by cases b <;> simp_all [beq]
  | float a, b, h => by cases b <;> simp_all [beq]
  | str a, b, h => by cases b <;> simp_all [beq]
  | arr a, b, h => by
    cases b <;> simp only [beq, Bool.false_eq_true] at h
    rw [eq_of_beqItems h]
  | obj a, b, h => by
    cases b <;> simp only [beq, Bool.false_eq_true] at h
    rw [eq_of_beqMembers h]

theorem eq_of_beqItems : ∀ {a b : List Json}, beqItems a b = true → a = b
  | [], b, h => by cases b <;> simp_all [beqItems]
  | a :: as, b, h => by
    cases b with
    | nil => simp [beqItems] at h
    | cons b bs =>
      simp only [beqItems, Bool.and_eq_true] at h
      rw [eq_of_beq h.1, eq_of_beqItems h.2]

theorem eq_of_beqMembers : ∀ {a b : List (String × Json)}, beqMembers a b = true → a = b
  | [], b, h => by cases b <;> simp_all [beqMembers]
  | (k, a) :: as, b, h => by
    cases b with
    | nil => simp [beqMembers] at h
    | cons m bs =>
      obtain ⟨l, b⟩ := m
      simp only [beqMembers, Bool.and_eq_true, beq_iff_eq] at h
      rw [h.1, eq_of_beq h.2.1, eq_of_beqMembers h.2.2]

end

mutual

theorem beq_refl : ∀ a : Json, beq a a = true
  | null => rfl
  | bool a => by simp [beq]
  | int a => by simp [beq]
  | float a => by simp [beq]
  | str a => by simp [beq]
  | arr a => by rw [beq, beqItems_refl a]
  | obj a => by rw [beq, beqMembers_refl a]

theorem beqItems_refl : ∀ a : List Json, beqItems a a = true
  | [] => rfl
  | a :: as => by simp [beqItems, beq_refl a, beqItems_refl as]

theorem beqMembers_refl : ∀ a : List (String × Json), beqMembers a a = true
  | [] => rfl
  | (k, a) :: as => by simp [beqMembers, beq_refl a, beqMembers_refl as]

end

instance : DecidableEq Json := fun a b =>
  if h : beq a b = true then .isTrue (eq_of_beq h)
  else .isFalse fun e => h (e ▸ beq_refl a)

mutual

/-- Agreement of values: as equality, but the two zeros agree. -/
def agrees : Json → Json → Bool
  | float a, float b => a.same b
  | arr a, arr b => agreesItems a b
  | obj a, obj b => agreesMembers a b
  | a, b => beq a b

/-- Agreement of two lists of values. -/
def agreesItems : List Json → List Json → Bool
  | [], [] => true
  | a :: as, b :: bs => agrees a b && agreesItems as bs
  | _, _ => false

/-- Agreement of two lists of members. -/
def agreesMembers : List (String × Json) → List (String × Json) → Bool
  | [], [] => true
  | (k, a) :: as, (l, b) :: bs => k == l && (agrees a b && agreesMembers as bs)
  | _, _ => false

end

end Json

end ResourceApi
