import ResourceApi.Sql.Database

/-!
# What queries answer

The meaning of a query on a database. A condition, a sort value or a query for related rows is
read in a `Frame`: the rows that the aliases around it stand for. The tables of a frame are
walked row by row, so a condition on related rows holds if it holds for some row, and a query
for one related row answers the first.
-/

namespace ResourceApi

/-- A row under its alias. -/
structure Binding where
  aliasId : Nat
  table : String
  row : Tuple
  deriving DecidableEq, Repr

/-- The rows that aliases stand for, the innermost first. -/
abbrev Frame := List Binding

namespace Frame

/-- The binding of an alias. -/
def binding? (f : Frame) (aliasId : Nat) : Option Binding := f.find? (·.aliasId = aliasId)

/-- The value of a column. -/
def value (f : Frame) (c : ColumnRef) : SqlValue :=
  match f.binding? c.table with
  | some b => b.row.get c.column
  | none => .null

/-- The value of a member. -/
def member (f : Frame) : MemberValue → SqlValue
  | .column c => f.value c
  | .constant v => v

end Frame

/-- The order in a direction. -/
def Direction.orient : Direction → Ordering → Ordering
  | asc, o => o
  | desc, o => o.swap

/-- Whether sort keys in given directions allow a row to stand before another one. -/
def sortsBefore : List Direction → List SqlValue → List SqlValue → Bool
  | d :: ds, v :: vs, w :: ws =>
    match d.orient (v.compare w) with
    | .lt => true
    | .gt => false
    | .eq => sortsBefore ds vs ws
  | _, _, _ => true

/-- The part of a list that a window shows. -/
def window {α : Type} (limit offset : Option Nat) (xs : List α) : List α :=
  let rest := xs.drop (offset.getD 0)
  match limit with
  | some n => rest.take n
  | none => rest

namespace Database

variable (db : Database)

/-! ## Conditions -/

/-- The storage type of a column. -/
def affinityIn (f : Frame) (c : ColumnRef) : Affinity :=
  match f.binding? c.table with
  | some b => db.affinity b.table c.column
  | none => .text

/-- Whether two columns are equal. -/
def equalColumns (f : Frame) (left right : ColumnRef) : Bool :=
  let (v, w) := Affinity.convertBoth (db.affinityIn f left) (db.affinityIn f right)
    (f.value left) (f.value right)
  v.equals w

/-- Whether a join condition holds. -/
def joins (f : Frame) : JoinCondition → Bool
  | .equal left right => db.equalColumns f left right
  | .through member table aliasId targetKey sourceKey parent =>
    (db.rows table).any fun link =>
      let f : Frame := ⟨aliasId, table, link⟩ :: f
      db.equalColumns f ⟨aliasId, sourceKey⟩ parent && db.equalColumns f member ⟨aliasId, targetKey⟩

/-- A value, as a column is compared with it. -/
def comparand (f : Frame) (c : ColumnRef) (v : SqlValue) : SqlValue := (db.affinityIn f c).convert v

/-- Whether a column equals one of some values. -/
def isAmong (f : Frame) (c : ColumnRef) (values : List SqlValue) : Bool :=
  values.any fun v => (f.value c).equals (db.comparand f c v)

mutual

/-- Whether a condition holds. -/
def holds (f : Frame) : RowCondition → Bool
  | .always => true
  | .never => false
  | .all children => allHold f children
  | .any children => anyHolds f children
  | .isNull c => f.value c == .null
  | .isNotNull c => f.value c != .null
  | .compare c .like v => Sql.like (f.value c) v
  | .compare c comparison v => comparison.holds (f.value c) (db.comparand f c v)
  | .among c values => db.isAmong f c values
  | .notAmong c values =>
    f.value c != .null && !values.contains .null && !db.isAmong f c values
  | .ilike c v => Sql.ilike (f.value c) v
  | .hasRelated table aliasId join condition =>
    (db.rows table).any fun row =>
      let f : Frame := ⟨aliasId, table, row⟩ :: f
      db.joins f join && holds f condition

/-- Whether every one of some conditions holds. -/
def allHold (f : Frame) : List RowCondition → Bool
  | [] => true
  | c :: rest => holds f c && allHold f rest

/-- Whether one of some conditions holds. -/
def anyHolds (f : Frame) : List RowCondition → Bool
  | [] => false
  | c :: rest => holds f c || anyHolds f rest

end

/-- The rows of a table that meet a condition; without one, all. -/
def filtered (table : String) (aliasId : Nat) (condition : Option RowCondition) : List Tuple :=
  match condition with
  | none => db.rows table
  | some c => (db.rows table).filter fun row => db.holds [⟨aliasId, table, row⟩] c

/-! ## Sort values and related rows -/

/-- The rows of a table that a join condition ties to the rows of a frame. Behind a join table they
come in the order of the column that the join table refers to. -/
def joined (f : Frame) (table : String) (aliasId : Nat) (join : JoinCondition) : List Tuple :=
  let rows := (db.rows table).filter fun row => db.joins (⟨aliasId, table, row⟩ :: f) join
  match join with
  | .equal .. => rows
  | .through member .. =>
    rows.mergeSort fun a b => (a.get member.column).compare (b.get member.column) != .gt

/-- The value to sort by. -/
def sortValue (f : Frame) : SortValue → SqlValue
  | .column c => f.value c
  | .related value table aliasId join =>
    match db.joined f table aliasId join with
    | [] => .null
    | row :: _ => sortValue (⟨aliasId, table, row⟩ :: f) value

mutual

/-- The related rows that a query asks for, to be written as JSON text. -/
def related (f : Frame) : RelatedQuery → Json
  | .mk many fields nested _ table aliasId join =>
    let object (row : Tuple) : Json :=
      let f : Frame := ⟨aliasId, table, row⟩ :: f
      .obj (fields.map (fun (key, v) => (key, (f.member v).untyped)) ++ relatedMembers f nested)
    let rows := db.joined f table aliasId join
    if many then .arr (rows.map object)
    else
      match rows with
      | [] => .null
      | row :: _ => object row

/-- The members that hold related rows. -/
def relatedMembers (f : Frame) : List (String × RelatedQuery) → List (String × Json)
  | [] => []
  | (key, query) :: rest => (key, related f query) :: relatedMembers f rest

end

mutual

/-- Why an object cannot be built for one of the related rows that a query asks for. -/
def relatedFault? (f : Frame) : RelatedQuery → Option ObjectFault
  | .mk many _ nested fault table aliasId join =>
    let rows := db.joined f table aliasId join
    (if many then rows else rows.take 1).findSome? fun row =>
      (membersFault? (⟨aliasId, table, row⟩ :: f) nested).or fault

/-- Why an object cannot be built below one of the members that hold related rows. -/
def membersFault? (f : Frame) : List (String × RelatedQuery) → Option ObjectFault
  | [] => none
  | (_, query) :: rest => (relatedFault? f query).or (membersFault? f rest)

end

/-! ## Queries -/

/-- The rows of a query in order, before the window is cut out. -/
def sorted (q : SelectQuery) : List Tuple :=
  let rows := (db.filtered q.table q.aliasId q.condition).map fun row =>
    (row, q.order.map fun (value, _) => db.sortValue [⟨q.aliasId, q.table, row⟩] value)
  (rows.mergeSort fun a b => sortsBefore (q.order.map (·.2)) a.2 b.2).map (·.1)

/-- The rows of a query, each as a frame. -/
def selected (q : SelectQuery) : List Frame :=
  (window q.limit q.offset (db.sorted q)).map fun row => [⟨q.aliasId, q.table, row⟩]

/-- The answer to a query: for every row its columns and the related rows. -/
def select (q : SelectQuery) : List (List SqlValue × List Json) :=
  (db.selected q).map fun f => (q.columns.map f.value, q.related.map (db.related f))

/-- Why an object cannot be built for a row of a query. -/
def selectFault? (q : SelectQuery) : Option ObjectFault :=
  (db.selected q).findSome? fun f => q.related.findSome? (db.relatedFault? f)

/-- The answer to a query, unless an object in it cannot be built. -/
def answer (q : SelectQuery) : Except Violation (List (List SqlValue × List Json)) :=
  match db.selectFault? q with
  | none => .ok (db.select q)
  | some .odd => .error .oddObject
  | some .keyNotText => .error .keyNotText

/-- The keys that a query for keys answers. -/
def keys (q : KeyQuery) : List SqlValue :=
  (db.filtered q.table q.aliasId q.condition).map (·.get q.column)

/-- Those of some keys that are present in a column. -/
def present (table column : String) (keys : List SqlValue) : List SqlValue :=
  ((db.rows table).map (·.get column)).filter fun v =>
    keys.any fun key => v.equals ((db.affinity table column).convert key)

end Database

end ResourceApi
