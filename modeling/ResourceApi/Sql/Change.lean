import ResourceApi.Sql.Integrity
import ResourceApi.Sql.Query

/-!
# What statements change

The effect of a statement on a database. A statement either takes place as a whole or is undone
by the first violation, so each one is a function to `Except Violation`.

The rows that a statement changes are found before the first of them is changed.
-/

namespace ResourceApi

namespace Table

/-! ## Writing rows -/

/-- The largest assigned key among the rows. -/
def largestKey? (t : Table) (key : String) : Option Int :=
  (t.rows.filterMap fun row => match row.get key with
    | .integer i => some i
    | _ => none).max?

/-- The next primary key: above every key that was ever kept. -/
def nextKey (t : Table) (key : String) : Except Violation Int :=
  let largest := max (t.largestKey? key |>.getD 0) t.lastKey
  if largest = Text.Numeral.maxInt then .error .keysExhausted
  else .ok (largest + 1)

/-- The row that given values make up; columns without a value are null. -/
def rowOf (t : Table) (values : Tuple) : Tuple :=
  t.definition.columns.map fun c => (c.name, c.affinity.store (values.get c.name))

/-- Gives a row its primary key, where the store assigns it. -/
def assignKey (t : Table) (row : Tuple) : Except Violation Tuple :=
  match t.assignedKey? with
  | none => .ok row
  | some key =>
    match row.get key with
    | .null => do return row.set key (.integer (← t.nextKey key))
    | .integer _ => .ok row
    | _ => .error .keyType

/-- Puts a row in its place in the order of a key. -/
def placeBy (key : String) (row : Tuple) : List Tuple → List Tuple
  | [] => [row]
  | other :: rest =>
    if (row.get key).compare (other.get key) == .lt then row :: other :: rest
    else other :: placeBy key row rest

/-- Remembers the primary key of a row, so that it is not assigned again. -/
def rememberKey (t : Table) (row : Tuple) : Table :=
  match t.assignedKey?.map row.get with
  | some (.integer i) => { t with lastKey := max t.lastKey i }
  | _ => t

/-- Adds a row. -/
def add (t : Table) (row : Tuple) : Table :=
  match t.assignedKey? with
  | none => { t with rows := t.rows ++ [row] }
  | some key => { t.rememberKey row with rows := placeBy key row t.rows }

/-- Inserts a row with the given values. -/
def insert (t : Table) (values : Tuple) : Except Violation (Table × Tuple) := do
  let row ← t.assignKey (t.rowOf values)
  t.check t.rows row
  return (t.add row, row)

/-- Sets values in a row. -/
def assign (t : Table) (values : Tuple) (row : Tuple) : Tuple :=
  values.foldl (fun row (column, v) => row.set column ((t.affinity column).store v)) row

/-- Refuses a row without an integer where the store assigns the primary key. -/
def checkKey (t : Table) (row : Tuple) : Except Violation Unit :=
  match t.assignedKey? with
  | none => .ok ()
  | some key => if row.get key matches .integer _ then .ok () else .error .keyType

/-- Sets values in the rows that are picked, one after the other; `done` are the rows before. -/
def assignEach (t : Table) (picked : Tuple → Bool) (values : Tuple) (done : List Tuple) :
    List Tuple → Except Violation (List Tuple)
  | [] => .ok done
  | row :: rest =>
    if picked row then do
      let changed := t.assign values row
      t.checkKey changed
      t.check (done ++ rest) changed
      assignEach t picked values (done ++ [changed]) rest
    else assignEach t picked values (done ++ [row]) rest

/-- Puts rows into the order of the table. -/
def arrange (t : Table) (rows : List Tuple) : List Tuple :=
  match t.assignedKey? with
  | none => rows
  | some key => rows.foldl (fun sorted row => placeBy key row sorted) []

/-- Sets values in the rows that are picked. -/
def update (t : Table) (picked : Tuple → Bool) (values : Tuple) : Except Violation Table := do
  return { t with rows := t.arrange (← t.assignEach picked values [] t.rows) }

/-- Inserts a row unless a constraint refuses it. Its primary key is used up either way. -/
def insertOrSkip (t : Table) (values : Tuple) : Except Violation Table := do
  let row ← t.assignKey (t.rowOf values)
  match t.check t.rows row with
  | .ok () => return t.add row
  | .error _ => return t.rememberKey row

/-- Inserts rows, leaving out those that a constraint refuses. -/
def insertEach (t : Table) (rows : List Tuple) : Except Violation Table := rows.foldlM insertOrSkip t

end Table

namespace Database

variable (db : Database)

/-! ## Which rows change -/

/-- Whether a guard holds for a row of a table. -/
def guardHolds (table : String) (row : Tuple) : Guard → Bool
  | .equals column v => (row.get column).equals ((db.affinity table column).convert v)
  | .among column values =>
    values.any fun v => (row.get column).equals ((db.affinity table column).convert v)
  | .notAmong column values =>
    row.get column != .null && !values.contains .null
      && !values.any fun v => (row.get column).equals ((db.affinity table column).convert v)

/-- Whether a row has one of the keys that a query answers. -/
def hasKeyOf (q : KeyQuery) (row : Tuple) : Bool :=
  (db.keys q).any fun key => (row.get q.column).equals key

/-! ## References to deleted rows -/

/-- Whether a value refers to one of some deleted rows. -/
def refersToAny (v : SqlValue) (table column : String) (deleted : List Tuple) : Bool :=
  v != .null && deleted.any (db.refers v table column)

/-- What becomes of a row's column when rows of another table are deleted: nothing if the row is
deleted too. -/
def releaseColumn (table : String) (deleted : List Tuple) (c : ColumnDefinition) (row : Tuple) :
    Constraint → Option Tuple
  | .references target column onDelete =>
    if target = table && db.refersToAny (row.get c.name) table column deleted then
      match onDelete with
      | .setNull => some (row.set c.name .null)
      | .cascade => none
    else some row
  | _ => some row

/-- What becomes of a row when rows of a table are deleted. -/
def release (table : String) (deleted : List Tuple) (t : Table) (row : Tuple) : Option Tuple :=
  t.definition.columns.foldlM (fun row c =>
    c.constraints.foldlM (db.releaseColumn table deleted c) row) row

/-- Deletes the rows of a table that are picked, with what depends on them. -/
def deleteRows (table : String) (picked : Tuple → Bool) : Database × Nat :=
  let deleted := (db.rows table).filter picked
  let kept := db.modify table fun t => { t with rows := t.rows.filter (!picked ·) }
  (⟨kept.tables.map fun t => { t with rows := t.rows.filterMap (db.release table deleted t) }⟩,
    deleted.length)

/-! ## Statements -/

/-- The table of a name, for a statement. -/
def tableFor (name : String) : Except Violation Table :=
  match db.table? name with
  | some t => .ok t
  | none => .error (.noTable name)

/-- Inserts a row and answers it as stored. -/
def insert (table : String) (values : Tuple) : Except Violation (Database × Tuple) := do
  let (t, row) ← (← db.tableFor table).insert values
  return (← (db.modify table fun _ => t).checkReferences, row)

/-- Sets values in the rows that are picked and answers their number. -/
def updateRows (table : String) (picked : Tuple → Bool) (values : Tuple) :
    Except Violation (Database × Nat) := do
  let t ← db.tableFor table
  let changed ← t.update picked values
  return (← (db.modify table fun _ => changed).checkReferences, (t.rows.filter picked).length)

/-- Inserts the links of a parent that are not there yet. -/
def insertLinks (table sourceKey targetKey : String) (parent : SqlValue)
    (targets : List SqlValue) : Except Violation (Database × Nat) := do
  let t ← db.tableFor table
  let linked ← t.insertEach (targets.map fun target =>
    [(sourceKey, parent), (targetKey, target)])
  return (← (db.modify table fun _ => linked).checkReferences, linked.rows.length - t.rows.length)

/-- Runs a statement and answers the number of rows it changes. -/
def execute : Statement → Except Violation (Database × Nat)
  | .select _ | .count _ | .present .. => .ok (db, 0)
  | .insert table values => do return ((← db.insert table values).1, 1)
  | .update rows values => db.updateRows rows.table (db.hasKeyOf rows) values
  | .delete rows => .ok (db.deleteRows rows.table (db.hasKeyOf rows))
  | .setKey table column value guards =>
    db.updateRows table (fun row => guards.all (db.guardHolds table row))
      [(column, value.getD .null)]
  | .deleteLinks table sourceKey parent =>
    .ok (db.deleteRows table fun row => db.guardHolds table row (.equals sourceKey parent))
  | .insertLinks table sourceKey targetKey parent targets =>
    db.insertLinks table sourceKey targetKey parent targets

end Database

end ResourceApi
