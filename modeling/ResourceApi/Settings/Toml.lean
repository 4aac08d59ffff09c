import ResourceApi.Text.Numeral

/-!
# TOML values

A settings file is a table of values. Only texts are looked into; of every other scalar just its
kind is kept, and of a number whether its type can hold it. Tables remember how they came to be,
because that decides what may be added to them.
-/

namespace ResourceApi.Settings

/-- How a table was written. -/
inductive TableOrigin where
  /-- By a header of its own. -/
  | header
  /-- As a part of a longer header. -/
  | implied
  /-- As a part of a dotted key; no header can open it. -/
  | dotted
  /-- In braces; nothing can be added to it. -/
  | inlined
  deriving DecidableEq, Repr

/-- A TOML value. -/
inductive Toml where
  | text (s : String)
  /-- A number, and whether a type of numbers holds it. -/
  | number (fits : Bool)
  | boolean
  /-- A date, a time of day, or both. -/
  | moment
  | array (items : List Toml)
  /-- An array whose tables are written one by one. -/
  | tables (items : List Toml)
  | table (origin : TableOrigin) (members : List (String × Toml))
  deriving Repr, Inhabited

namespace Toml

/-- The value of a key in a list of members. -/
def lookup (key : String) (members : List (String × Toml)) : Option Toml :=
  (members.find? (·.1 = key)).map (·.2)

/-- Sets the value of a key. -/
def set (key : String) (value : Toml) : List (String × Toml) → List (String × Toml)
  | [] => [(key, value)]
  | (k, v) :: rest => if k = key then (k, value) :: rest else (k, v) :: set key value rest

mutual

/-- Whether every number in a value is held by a type of numbers. -/
def fits : Toml → Bool
  | number fits => fits
  | array items | tables items => allFit items
  | table _ members => membersFit members
  | text _ | boolean | moment => true

/-- Whether every number in some values is held by a type of numbers. -/
def allFit : List Toml → Bool
  | [] => true
  | item :: rest => fits item && allFit rest

/-- Whether every number in some members is held by a type of numbers. -/
def membersFit : List (String × Toml) → Bool
  | [] => true
  | (_, value) :: rest => fits value && membersFit rest

end

/-! ## Putting a document together -/

/-- Whether a dotted key may lead through a table. The last table on the way, which takes the value,
has to be made by dotted keys itself. -/
def isOpen (origin : TableOrigin) (isLast : Bool) : Bool :=
  origin = .dotted || (origin = .implied && !isLast)

/-- Adds a value under a dotted key. Every part but the last is a table that is open to dotted keys,
or a new one; the last is new. Of an array of tables the last one is meant. -/
def addDotted (value : Toml) : List String → List (String × Toml) → Option (List (String × Toml))
  | [], _ => none
  | [key], members =>
    match lookup key members with
    | none => some (members ++ [(key, value)])
    | some _ => none
  | key :: rest, members =>
    match lookup key members with
    | none => (addDotted value rest []).map fun inner => members ++ [(key, table .dotted inner)]
    | some (table origin inner) =>
      if isOpen origin (rest.length = 1) then
        (addDotted value rest inner).map fun inner => set key (table origin inner) members
      else none
    | some (tables items) =>
      match rest, items.reverse with
      | _ :: _ :: _, table origin inner :: before =>
        (addDotted value rest inner).map fun inner =>
          set key (tables (before.reverse ++ [table origin inner])) members
      | _, _ => none
    | some _ => none

/-- Changes the table that a header leads to. Of an array of tables the last one is meant. -/
def atHeader (change : Option Toml → Option Toml) :
    List String → List (String × Toml) → Option (List (String × Toml))
  | [], _ => none
  | [key], members =>
    match lookup key members with
    | none => (change none).map fun value => members ++ [(key, value)]
    | some old => (change (some old)).map fun value => set key value members
  | key :: rest, members =>
    match lookup key members with
    | none =>
      (atHeader change rest []).map fun inner => members ++ [(key, table .implied inner)]
    | some (table origin inner) =>
      if origin = .inlined then none
      else (atHeader change rest inner).map fun inner => set key (table origin inner) members
    | some (tables items) =>
      match items.reverse with
      | table origin inner :: before =>
        (atHeader change rest inner).map fun inner =>
          set key (tables (before.reverse ++ [table origin inner])) members
      | _ => none
    | some _ => none

/-- Opens the table of a header: a new one, or one that only longer headers implied. -/
def openTable : Option Toml → Option Toml
  | none => some (table .header [])
  | some (table .implied inner) => some (table .header inner)
  | some _ => none

/-- Opens a further table of an array of tables. -/
def openElement : Option Toml → Option Toml
  | none => some (tables [table .header []])
  | some (tables items) => some (tables (items ++ [table .header []]))
  | some _ => none

/-- Adds a member to the table that a header opened. -/
def addMember (keys : List String) (value : Toml) : Option Toml → Option Toml
  | some (table origin inner) => (addDotted value keys inner).map (table origin)
  | some (tables items) =>
    match items.reverse with
    | table origin inner :: before =>
      (addDotted value keys inner).map fun inner =>
        tables (before.reverse ++ [table origin inner])
    | _ => none
  | _ => none

end Toml

end ResourceApi.Settings
