import Mathlib.Data.List.Basic
import ResourceApi.Proofs.Sql.Lexemes

/-!
# Items of statements

A statement is read as a tree: brackets make a group of what is in them, two names with a dot
between them are a reference to a column, and `FROM` with a table and its alias is a source.
`Sql.Item.ofText?` reads a text so, if its brackets match.

**Theorem (`Sql.Item.read_lexemesOf`).** Reading gives back every tree whose own lexemes are none of
those that the reading puts together (`Sql.Item.Settled`).
-/

namespace ResourceApi.Sql

/-- A part of a statement as it is read. -/
inductive Item where
  | token (lexeme : Lexeme)
  /-- A column behind the name of a table. -/
  | reference (table column : String)
  /-- A table that rows are taken from, with the name it gets. -/
  | source (table name : String)
  /-- What stands between two brackets. -/
  | group (items : List Item)

namespace Item

/-! ## Lexemes -/

/-- A word. -/
abbrev word (s : String) : Item := token ⟨.word, s⟩

/-- An operator or a comma. -/
abbrev symbol (s : String) : Item := token ⟨.symbol, s⟩

/-- A number. -/
abbrev number (s : String) : Item := token ⟨.number, s⟩

/-- A literal of a text. -/
abbrev text (s : String) : Item := token ⟨.text, s⟩

/-- A name by itself. -/
abbrev name (s : String) : Item := token ⟨.quotedName, s⟩

/-- A mark for a value. -/
abbrev mark : Item := token ⟨.mark, "?"⟩

mutual

/-- What an item is written with. -/
@[simp]
def lexemes : Item → List Lexeme
  | token lexeme => [lexeme]
  | reference table column => [⟨.quotedName, table⟩, ⟨.symbol, "."⟩, ⟨.quotedName, column⟩]
  | source table name => [⟨.word, "FROM"⟩, ⟨.quotedName, table⟩, ⟨.word, "AS"⟩, ⟨.quotedName, name⟩]
  | group items => ⟨.symbol, "("⟩ :: lexemesOf items ++ [⟨.symbol, ")"⟩]

/-- What several items are written with. -/
@[simp]
def lexemesOf : List Item → List Lexeme
  | [] => []
  | item :: rest => lexemes item ++ lexemesOf rest

end

@[simp] theorem lexemesOf_append (a b : List Item) :
    lexemesOf (a ++ b) = lexemesOf a ++ lexemesOf b := by
  induction a with
  | nil => rfl
  | cons item a ih => simp [ih]

theorem lexemesOf_intercalate (separator : List Item) (parts : List (List Item)) :
    lexemesOf (separator.intercalate parts) =
      (lexemesOf separator).intercalate (parts.map lexemesOf) := by
  induction parts with
  | nil => rfl
  | cons part parts ih =>
    cases parts with
    | nil => simp
    | cons next parts => simp [List.intercalate_cons_cons, ih]

@[simp] theorem lexemesOf_flatMap {α : Type} (xs : List α) (f : α → List Item) :
    lexemesOf (xs.flatMap f) = xs.flatMap fun x => lexemesOf (f x) := by
  induction xs with
  | nil => rfl
  | cons x xs ih => simp [ih]

/-! ## Atoms -/

mutual

/-- An item, or what it is a group of. -/
@[simp]
def atoms : Item → List Item
  | group items => atomsOf items
  | token lexeme => [token lexeme]
  | reference table column => [reference table column]
  | source table name => [source table name]

/-- What some items and groups are made of, from left to right. -/
@[simp]
def atomsOf : List Item → List Item
  | [] => []
  | item :: rest => atoms item ++ atomsOf rest

end

@[simp] theorem atomsOf_append (a b : List Item) : atomsOf (a ++ b) = atomsOf a ++ atomsOf b := by
  induction a with
  | nil => rfl
  | cons item a ih => simp [ih]

/-- Every atom of some items has a property. -/
def Each (p : Item → Prop) (items : List Item) : Prop := ∀ item ∈ atomsOf items, p item

section

variable {p : Item → Prop} {a b rest : List Item}

@[simp] theorem each_nil : Each p [] := nofun

@[simp] theorem each_append : Each p (a ++ b) ↔ Each p a ∧ Each p b := by
  simp [Each, or_imp, forall_and]

@[simp] theorem each_token {lexeme : Lexeme} :
    Each p (token lexeme :: rest) ↔ p (token lexeme) ∧ Each p rest := by
  simp [Each]

@[simp] theorem each_reference {table column : String} :
    Each p (reference table column :: rest) ↔ p (reference table column) ∧ Each p rest := by
  simp [Each]

@[simp] theorem each_source {table name : String} :
    Each p (source table name :: rest) ↔ p (source table name) ∧ Each p rest := by
  simp [Each]

@[simp] theorem each_group : Each p (group a :: rest) ↔ Each p a ∧ Each p rest := by
  simp [Each, or_imp, forall_and]

theorem each_intercalate (ha : Each p a) {parts : List (List Item)} :
    Each p (a.intercalate parts) ↔ ∀ part ∈ parts, Each p part := by
  induction parts with
  | nil => simp
  | cons part parts ih =>
    cases parts with
    | nil => simp
    | cons next parts => simp [List.intercalate_cons_cons, ih, ha]

@[simp] theorem each_flatMap {α : Type} {xs : List α} {f : α → List Item} :
    Each p (xs.flatMap f) ↔ ∀ x ∈ xs, Each p (f x) := by
  induction xs with
  | nil => simp
  | cons x xs ih => simp [ih]

end

/-- What some atoms of items stand for, from left to right. -/
def gather {α : Type} (f : Item → Option α) (items : List Item) : List α :=
  (atomsOf items).filterMap f

section

variable {α : Type} {f : Item → Option α}

@[simp] theorem gather_nil : gather f [] = [] := rfl

@[simp] theorem gather_append (a b : List Item) : gather f (a ++ b) = gather f a ++ gather f b := by
  simp [gather]

theorem gather_atom {item : Item} (h : atoms item = [item]) (rest : List Item) :
    gather f (item :: rest) = (f item).toList ++ gather f rest := by
  rw [gather, atomsOf, h, List.filterMap_append]
  cases hf : f item <;> simp [hf, gather]

@[simp] theorem gather_token (lexeme : Lexeme) (rest : List Item) :
    gather f (token lexeme :: rest) = (f (token lexeme)).toList ++ gather f rest :=
  gather_atom rfl rest

@[simp] theorem gather_reference (table column : String) (rest : List Item) :
    gather f (reference table column :: rest) =
      (f (reference table column)).toList ++ gather f rest :=
  gather_atom rfl rest

@[simp] theorem gather_source (table name : String) (rest : List Item) :
    gather f (source table name :: rest) = (f (source table name)).toList ++ gather f rest :=
  gather_atom rfl rest

@[simp] theorem gather_group (items rest : List Item) :
    gather f (group items :: rest) = gather f items ++ gather f rest := by
  simp [gather]

theorem gather_intercalate {separator : List Item} (hs : gather f separator = [])
    (parts : List (List Item)) :
    gather f (separator.intercalate parts) = parts.flatMap (gather f) := by
  induction parts with
  | nil => rfl
  | cons part parts ih =>
    cases parts with
    | nil => simp
    | cons next parts => simp [List.intercalate_cons_cons, ih, hs]

@[simp] theorem gather_flatMap {β : Type} (xs : List β) (g : β → List Item) :
    gather f (xs.flatMap g) = xs.flatMap fun x => gather f (g x) := by
  induction xs with
  | nil => rfl
  | cons x xs ih => simp [ih]

end

/-- The text of a literal. -/
@[simp]
def literal? : Item → Option String
  | token ⟨.text, value⟩ => some value
  | _ => none

/-- The name that a table gets. -/
@[simp]
def introduced? : Item → Option String
  | source _ name => some name
  | _ => none

/-- The texts that stand between apostrophes, from left to right. -/
abbrev literals (items : List Item) : List String := gather literal? items

/-- The names that tables get, from left to right. -/
abbrev introduced (items : List Item) : List String := gather introduced? items

/-! ## Reading -/

/-- Puts a lexeme behind what has been read, the last item first. -/
def push (lexeme : Lexeme) : List Item → List Item
  | .token ⟨.symbol, "."⟩ :: .token ⟨.quotedName, table⟩ :: before =>
    if lexeme.kind = .quotedName then .reference table lexeme.name :: before
    else .token lexeme :: .symbol "." :: .name table :: before
  | .token ⟨.word, "AS"⟩ :: .token ⟨.quotedName, table⟩ :: .token ⟨.word, "FROM"⟩ :: before =>
    if lexeme.kind = .quotedName then .source table lexeme.name :: before
    else .token lexeme :: .word "AS" :: .name table :: .word "FROM" :: before
  | before => .token lexeme :: before

/-- Reads lexemes behind the items of a group and those around it, the last item and the innermost
group first. -/
def read (current : List Item) (outer : List (List Item)) : List Lexeme → Option (List Item)
  | [] => if outer.isEmpty then some current.reverse else none
  | lexeme :: rest =>
    if lexeme = ⟨.symbol, "("⟩ then read [] (current :: outer) rest
    else if lexeme = ⟨.symbol, ")"⟩ then
      match outer with
      | [] => none
      | around :: outer => read (.group current.reverse :: around) outer rest
    else read (push lexeme current) outer rest

/-- The tree of a text, if its brackets match. -/
def ofText? (text : String) : Option (List Item) := read [] [] (Sql.lexemes text.toList)

/-- The lexemes that a reading puts together with those around them. -/
def joints : List Lexeme :=
  [⟨.symbol, "("⟩, ⟨.symbol, ")"⟩, ⟨.symbol, "."⟩, ⟨.word, "AS"⟩]

/-- An item that is read as it is, wherever it stands. -/
@[simp]
def IsSettled : Item → Prop
  | token lexeme => lexeme ∉ joints
  | _ => True

/-- No lexeme of some items is put together with those around it. -/
abbrev Settled (items : List Item) : Prop := Each IsSettled items

/-- What has been read does not wait for a name. -/
def Closed (before : List Item) : Prop :=
  ∀ lexeme, before.head? = some (token lexeme) → lexeme ∉ joints

theorem push_of_closed {before : List Item} (h : Closed before) (lexeme : Lexeme) :
    push lexeme before = token lexeme :: before := by
  unfold push
  split
  · exact absurd (by decide) (h _ rfl)
  · exact absurd (by decide) (h _ rfl)
  · rfl

theorem Settled.closed {item : Item} (h : Settled [item]) (before : List Item) :
    Closed (item :: before) := by
  intro lexeme hl
  cases hl
  simpa using h

theorem read_cons {current : List Item} {outer : List (List Item)} {lexeme : Lexeme}
    {rest : List Lexeme} (h₁ : lexeme ≠ ⟨.symbol, "("⟩) (h₂ : lexeme ≠ ⟨.symbol, ")"⟩) :
    read current outer (lexeme :: rest) = read (push lexeme current) outer rest := by
  cases outer <;> rw [read, if_neg h₁, if_neg h₂]

theorem read_opening (current : List Item) (outer : List (List Item)) (rest : List Lexeme) :
    read current outer (⟨.symbol, "("⟩ :: rest) = read [] (current :: outer) rest := by
  cases outer <;> rw [read, if_pos rfl]

theorem read_closing (current around : List Item) (outer : List (List Item)) (rest : List Lexeme) :
    read current (around :: outer) (⟨.symbol, ")"⟩ :: rest) =
      read (.group current.reverse :: around) outer rest := by
  rw [read, if_neg (by simp), if_pos rfl]

mutual

/-- Behind what does not wait for a name, an item is read as it is. -/
theorem read_lexemes {before : List Item} (hb : Closed before) {outer : List (List Item)}
    {rest : List Lexeme} : ∀ {item : Item}, Settled [item] →
    read before outer (item.lexemes ++ rest) = read (item :: before) outer rest
  | token lexeme, h => by
    obtain ⟨hopening, hclosing, -⟩ : lexeme ≠ ⟨.symbol, "("⟩ ∧ lexeme ≠ ⟨.symbol, ")"⟩ ∧
        lexeme ≠ ⟨.symbol, "."⟩ ∧ lexeme ≠ ⟨.word, "AS"⟩ := by
      simpa [joints] using h
    rw [lexemes, List.singleton_append, read_cons hopening hclosing, push_of_closed hb]
  | reference table column, _ => by
    have hname : Closed (name table :: before) := Settled.closed (by simp [joints]) before
    show read before outer (_ :: _ :: _ :: rest) = _
    rw [read_cons (by simp) (by simp), push_of_closed hb, read_cons (by simp) (by simp),
      push_of_closed hname, read_cons (by simp) (by simp)]
    rfl
  | source table n, _ => by
    have hfrom : Closed (word "FROM" :: before) := Settled.closed (by simp [joints]) before
    have hname : Closed (name table :: word "FROM" :: before) :=
      Settled.closed (by simp [joints]) _
    show read before outer (_ :: _ :: _ :: _ :: rest) = _
    rw [read_cons (by simp) (by simp), push_of_closed hb, read_cons (by simp) (by simp),
      push_of_closed hfrom, read_cons (by simp) (by simp), push_of_closed hname,
      read_cons (by simp) (by simp)]
    rfl
  | group items, h => by
    have hempty : Closed [] := nofun
    have h : Settled items := by simpa using h
    rw [lexemes, List.cons_append, List.cons_append, List.append_assoc, read_opening,
      read_lexemesOf hempty h, List.singleton_append, read_closing]
    simp

/-- **Reading gives back what is written.** -/
theorem read_lexemesOf {before : List Item} (hb : Closed before) {outer : List (List Item)}
    {rest : List Lexeme} : ∀ {items : List Item}, Settled items →
    read before outer (lexemesOf items ++ rest) = read (items.reverse ++ before) outer rest
  | [], _ => rfl
  | item :: items, h => by
    have hboth : Settled [item] ∧ Settled items :=
      each_append.1 (show Settled ([item] ++ items) from h)
    rw [lexemesOf, List.append_assoc, read_lexemes hb hboth.1,
      read_lexemesOf (Settled.closed hboth.1 before) hboth.2, List.reverse_cons, List.append_assoc]
    rfl

end

theorem ofText?_eq_some {text : String} {items : List Item} (h : Settled items)
    (ht : Sql.lexemes text.toList = lexemesOf items) : ofText? text = some items := by
  have hempty : Closed [] := nofun
  rw [ofText?, ht, ← List.append_nil (lexemesOf items), read_lexemesOf hempty h, read]
  simp

end Item

end ResourceApi.Sql
