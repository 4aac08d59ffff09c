import ResourceApi.Proofs.Sql.Faithful
import ResourceApi.Proofs.Sql.Related
import ResourceApi.Proofs.Store.Decoding

/-!
# Related rows in records

**Theorem (`Registry.record_decode`).** The row that is decoded from an answer to a plan's query is
the record of the stored row: every selected field has its stored value, and under every included
relationship stand the records of the related rows, at every depth.

Related rows come through JSON text, which loses the types of their values and leaves nothing for an
empty relationship. What a query for related rows writes supplies what its include node asks for
(`Registry.supplies_related`), and what is restored from that, field by field and node by node, is a
record again (`Registry.record_restored`). The recursion is that of the include tree; at each node
the fields and the relationships have different names, so that one cannot overwrite the other.
-/

namespace ResourceApi

namespace Registry

variable {r : Registry} {db : Database} {schema : Schema}

/-! ## Restored objects -/

/-- The type of a field's column. -/
def typeOf (r : Registry) (schema : Schema) (field : String) : ColumnType :=
  (r.column? schema field).elim .text (·.type)

/-- Restores the type of one field. -/
def restoreField (r : Registry) (schema : Schema) (o : Object) (name : String) : Object :=
  match r.column? schema name, o.get? name with
  | some c, some value => o.insert name (SqlValue.retype c.type value)
  | _, _ => o

theorem restoreFields_eq_foldl (names : List String) (o : Object) :
    r.restoreFields schema names o = names.foldl (r.restoreField schema) o := rfl

theorem get?_restoreField (o : Object) (name key : String) :
    (r.restoreField schema o name).get? key =
      if key = name then (o.get? key).map (SqlValue.retype (r.typeOf schema key))
      else o.get? key := by
  unfold restoreField typeOf
  by_cases hk : key = name
  · subst hk
    rw [if_pos rfl]
    cases hc : r.column? schema key with
    | none =>
      have htext : SqlValue.retype .text = id := funext fun v => by cases v <;> rfl
      simp [htext]
    | some c =>
      cases hv : o.get? key with
      | none => simpa using hv
      | some v => simp
  · rw [if_neg hk]
    split
    · exact Object.get?_insert_of_ne (Ne.symm hk) _ o
    · rfl

/-- The types of the named fields are restored, and nothing else changes. -/
theorem get?_restoreFields (names : List String) (o : Object) (key : String) :
    (r.restoreFields schema names o).get? key =
      if key ∈ names then (o.get? key).map (SqlValue.retype (r.typeOf schema key))
      else o.get? key := by
  rw [restoreFields_eq_foldl]
  induction names generalizing o with
  | nil => rfl
  | cons name rest ih =>
    rw [List.foldl_cons, ih, get?_restoreField]
    by_cases hk : key = name
    · subst hk
      simp only [List.mem_cons, true_or, if_true, Option.map_map]
      have htwice : SqlValue.retype (r.typeOf schema key) ∘ SqlValue.retype (r.typeOf schema key) =
          SqlValue.retype (r.typeOf schema key) :=
        funext fun v => SqlValue.retype_retype _ v
      rw [htwice, ite_self]
    · simp only [List.mem_cons, hk, false_or, if_false]

theorem get?_restoreNested_of_notMem {nodes : List IncludeNode} {o : Object} {key : String}
    (h : key ∉ nodes.map (·.relationship)) :
    (r.restoreNested schema o nodes).get? key = o.get? key := by
  induction nodes generalizing o with
  | nil => rw [restoreNested]
  | cons node rest ih =>
    rw [List.map_cons, List.mem_cons, not_or] at h
    rw [restoreNested, ih h.2, Object.get?_insert_of_ne (Ne.symm h.1)]

/-- The member of a node is restored by itself. -/
theorem get?_restoreNested {nodes : List IncludeNode} {o : Object} {node : IncludeNode}
    (hn : (nodes.map (·.relationship)).Nodup) (hm : node ∈ nodes) {a : Association}
    (ha : r.association? schema node.relationship = some a) :
    (r.restoreNested schema o nodes).get? node.relationship =
      some (r.restore a.cardinality ((o.get? node.relationship).getD .null) node) := by
  induction nodes generalizing o with
  | nil => cases hm
  | cons first rest ih =>
    obtain ⟨hfirst, hrest⟩ := List.nodup_cons.1 hn
    rw [restoreNested]
    rcases List.mem_cons.1 hm with rfl | hm
    · rw [get?_restoreNested_of_notMem hfirst, Object.get?_insert_self, ha]
      rfl
    · have hne : first.relationship ≠ node.relationship := fun he =>
        hfirst (List.mem_map.2 ⟨node, hm, he.symm⟩)
      rw [ih hrest hm, Object.get?_insert_of_ne hne]

/-! ## Records from JSON text -/

/-- The member holds what an include node asks for, once it has come through JSON text and its types
are restored. -/
structure Supplies (r : Registry) (db : Database) (schema : Schema) (row : Tuple)
    (node : IncludeNode) (member : String × Json) : Prop where
  key : member.1 = node.relationship
  faithful : member.2.Faithful
  carries : ∃ a, r.association? schema node.relationship = some a ∧
    node.Carries r db schema row (r.restore a.cardinality member.2.ordered node)

/-- The members for the fields of a row, as they go into JSON text. -/
def untypedMembers (schema : Schema) (row : Tuple) (selection : Selection) :
    List (String × Json) :=
  (selection.names schema).map fun field => (field, (row.get (columnName field)).untyped)

/-- The object that comes of members that went through JSON text. -/
def restored (r : Registry) (schema : Schema) (selection : Selection) (nested : List IncludeNode)
    (members : List (String × Json)) : Object :=
  r.restoreNested schema (r.restoreFields schema (selection.names schema)
    (Object.ofList (Json.orderedMembers members))) nested

/-- The members are those of an object that becomes the record of the row. -/
structure SuppliesRecord (r : Registry) (db : Database) (schema : Schema) (row : Tuple)
    (selection : Selection) (nested : List IncludeNode) (members : List (String × Json)) :
    Prop where
  faithful : (Json.obj members).Faithful
  record : r.Record schema row selection nested (r.restored schema selection nested members)
  carry : IncludeNode.AllCarry r db schema row (r.restored schema selection nested members) nested

section

variable {row : Tuple} {selection : Selection} {nested : List IncludeNode}
  {members : List (String × Json)}

/-- Fields and relationships are named apart. -/
theorem ne_relationship (hnested : ∀ node ∈ nested, schema.hasField node.relationship = false)
    {node : IncludeNode} (hm : node ∈ nested) {field : String} (hf : schema.hasField field) :
    field ≠ node.relationship := by
  rintro rfl
  rw [hnested node hm] at hf
  cases hf

theorem keys_of_supplies (h : List.Forall₂ (r.Supplies db schema row) nested members) :
    members.map (·.1) = nested.map (·.relationship) :=
  map_eq_map_of_forall₂ (h.imp fun _ _ hm => hm.key)

/-- Every node has a member, and only one. -/
theorem exists_supplied (h : List.Forall₂ (r.Supplies db schema row) nested members)
    (hn : (nested.map (·.relationship)).Nodup) {node : IncludeNode} (hm : node ∈ nested) :
    ∃ value, (node.relationship, value) ∈ members ∧
      r.Supplies db schema row node (node.relationship, value) ∧
      ∀ v, (node.relationship, v) ∈ members → v = value := by
  obtain ⟨⟨key, value⟩, hmem, hsup⟩ := exists_of_forall₂ h.flip hm
  obtain rfl : key = node.relationship := hsup.key
  refine ⟨value, hmem, hsup, fun v hv => ?_⟩
  rw [← keys_of_supplies h] at hn
  exact congrArg Prod.snd (List.inj_on_of_nodup_map hn hv hmem rfl)

/-- The members before their types are restored. -/
theorem orderedMembers_append :
    Json.orderedMembers (untypedMembers schema row selection ++ members) =
      untypedMembers schema row selection ++ Json.orderedMembers members := by
  simp [Json.orderedMembers_eq_map, untypedMembers, SqlValue.ordered_untyped]

theorem get?_field (hnested : ∀ node ∈ nested, schema.hasField node.relationship = false)
    (h : List.Forall₂ (r.Supplies db schema row) nested members) {field : String}
    (hf : field ∈ selection.names schema) (hfield : schema.hasField field) :
    (Object.ofList (Json.orderedMembers (untypedMembers schema row selection ++ members))).get?
      field = some (row.get (columnName field)).untyped := by
  rw [orderedMembers_append]
  refine Object.get?_ofList (List.mem_append_left _ (List.mem_map_of_mem hf)) fun v hv => ?_
  rcases List.mem_append.1 hv with hv | hv
  · obtain ⟨other, -, he⟩ := List.mem_map.1 hv
    cases he
    rfl
  · rw [Json.orderedMembers_eq_map] at hv
    obtain ⟨⟨key, value⟩, hm, he⟩ := List.mem_map.1 hv
    cases he
    have hkey : field ∈ nested.map (·.relationship) :=
      keys_of_supplies h ▸ List.mem_map_of_mem hm
    obtain ⟨node, hnode, he⟩ := List.mem_map.1 hkey
    exact absurd he.symm (ne_relationship hnested hnode hfield)

theorem get?_relationship (hfields : ∀ field ∈ selection.names schema, schema.hasField field)
    (hnested : ∀ node ∈ nested, schema.hasField node.relationship = false)
    (h : List.Forall₂ (r.Supplies db schema row) nested members)
    (hn : (nested.map (·.relationship)).Nodup) {node : IncludeNode} (hm : node ∈ nested) :
    ∃ value, r.Supplies db schema row node (node.relationship, value) ∧
      (Object.ofList (Json.orderedMembers (untypedMembers schema row selection ++ members))).get?
        node.relationship = some value.ordered := by
  obtain ⟨value, hmem, hsup, hall⟩ := exists_supplied h hn hm
  refine ⟨value, hsup, ?_⟩
  rw [orderedMembers_append, Json.orderedMembers_eq_map]
  refine Object.get?_ofList (List.mem_append_right _ (List.mem_map.2 ⟨_, hmem, rfl⟩)) fun v hv => ?_
  rcases List.mem_append.1 hv with hv | hv
  · obtain ⟨field, hf, he⟩ := List.mem_map.1 hv
    exact absurd (congrArg Prod.fst he) (ne_relationship hnested hm (hfields field hf))
  · obtain ⟨⟨key, w⟩, hw, he⟩ := List.mem_map.1 hv
    cases he
    rw [hall w hw]

/-- An object with the values of a row's fields and with what its include nodes ask for. -/
theorem record_of_get? {object : Object}
    (hfields : ∀ field ∈ selection.names schema,
      object.get? field = some (r.shown schema row field))
    (hnested : ∀ node ∈ nested, ∃ value, object.get? node.relationship = some value ∧
      node.Carries r db schema row value)
    (hkeys : ∀ key ∈ object.keys,
      key ∈ selection.names schema ∨ key ∈ nested.map (·.relationship)) :
    r.Record schema row selection nested object ∧
      IncludeNode.AllCarry r db schema row object nested := by
  refine ⟨⟨fun key => ⟨hkeys key, ?_⟩, hfields⟩, IncludeNode.allCarry_iff.2 hnested⟩
  rintro (hf | hk)
  · rw [Object.mem_keys_iff, hfields key hf]
    rfl
  · obtain ⟨node, hm, rfl⟩ := List.mem_map.1 hk
    obtain ⟨value, hget, -⟩ := hnested node hm
    rw [Object.mem_keys_iff, hget]
    rfl

/-- **What comes of a row's members is its record.** -/
theorem record_restored (hfields : ∀ field ∈ selection.names schema, schema.hasField field)
    (hvalues : ∀ field ∈ selection.names schema,
      (row.get (columnName field)).Faithful (r.typeOf schema field))
    (hnested : ∀ node ∈ nested, schema.hasField node.relationship = false)
    (hn : (nested.map (·.relationship)).Nodup)
    (h : List.Forall₂ (r.Supplies db schema row) nested members) :
    r.Record schema row selection nested
        (r.restored schema selection nested (untypedMembers schema row selection ++ members)) ∧
      IncludeNode.AllCarry r db schema row
        (r.restored schema selection nested (untypedMembers schema row selection ++ members))
        nested := by
  refine record_of_get? (fun field hf => ?_) (fun node hm => ?_) (fun key hkey => ?_)
  · have hno : field ∉ nested.map (·.relationship) := fun hk => by
      obtain ⟨node, hm, he⟩ := List.mem_map.1 hk
      exact ne_relationship hnested hm (hfields field hf) he.symm
    rw [restored, get?_restoreNested_of_notMem hno, get?_restoreFields, if_pos hf,
      get?_field hnested h hf (hfields field hf), Option.map_some,
      SqlValue.retype_untyped (hvalues field hf)]
    rfl
  · obtain ⟨value, hsup, hget⟩ := get?_relationship hfields hnested h hn hm
    obtain ⟨a, ha, hcarries⟩ := hsup.carries
    refine ⟨_, get?_restoreNested hn hm ha, ?_⟩
    have hno : node.relationship ∉ selection.names schema := fun hf =>
      ne_relationship hnested hm (hfields _ hf) rfl
    rw [get?_restoreFields, if_neg hno, hget]
    exact hcarries
  · by_contra hnot
    rw [not_or] at hnot
    rw [Object.mem_keys_iff, restored, get?_restoreNested_of_notMem hnot.2, get?_restoreFields,
      if_neg hnot.1, ← Object.mem_keys_iff, orderedMembers_append] at hkey
    have hin := Object.mem_keys_ofList hkey
    rw [List.map_append, List.mem_append, Json.orderedMembers_eq_map, List.map_map] at hin
    rcases hin with hin | hin
    · exact hnot.1 (by simpa [untypedMembers, Function.comp_def] using hin)
    · refine hnot.2 ?_
      rw [← keys_of_supplies h]
      exact hin

end

/-! ## Restored values -/

section

variable {relationship target : String} {selection : Selection} {nested : List IncludeNode}

theorem restore_obj (hs : r.schema? target = some schema) (cardinality : Cardinality)
    (members : List (String × Json)) :
    r.restore cardinality (Json.obj members).ordered (.mk relationship target selection nested) =
      .obj (r.restored schema selection nested members) := by
  unfold restore
  simp [Json.ordered, Json.isNull, hs, restored]

theorem restore_arr (hs : r.schema? target = some schema) (cardinality : Cardinality)
    (objects : List (List (String × Json))) :
    r.restore cardinality (Json.arr (objects.map .obj)).ordered
        (.mk relationship target selection nested) =
      .arr ((objects.map (r.restored schema selection nested)).map .obj) := by
  unfold restore
  simp [Json.ordered, Json.isNull, Json.orderedItems_eq_map, hs, restored, Function.comp_def]

theorem restore_null (node : IncludeNode) : r.restore .one (Json.null).ordered node = .null := by
  cases node
  unfold restore
  dsimp only
  split <;> rfl

end

/-! ## Related rows -/

/-- The object for a related row, as it goes into JSON text. -/
def relatedObject (db : Database) (f : Frame) (schema : Schema) (selection : Selection)
    (members : List (String × RelatedQuery)) (inner : Nat) (row : Tuple) :
    List (String × Json) :=
  untypedMembers schema row selection
    ++ db.relatedMembers (⟨inner, schema.tableName, row⟩ :: f) members

theorem untyped_fieldMembers (f : Frame) (selection : Selection) (inner : Nat) (row : Tuple) :
    (Rendering.fieldMembers inner (selection.names schema)).map
      (fun (key, v) => (key, (Frame.member (⟨inner, schema.tableName, row⟩ :: f) v).untyped)) =
        untypedMembers schema row selection := by
  unfold Rendering.fieldMembers untypedMembers
  rw [List.map_map]
  refine List.map_congr_left fun field _ => ?_
  exact congrArg (field, ·.untyped) ((Frame.binds_push f inner schema.tableName row).value _)

theorem related_fieldMembers (f : Frame) (many : Bool) (selection : Selection)
    (members : List (String × RelatedQuery)) (inner : Nat) (condition : JoinCondition) :
    db.related f (.mk many (Rendering.fieldMembers inner (selection.names schema)) members none
        schema.tableName inner condition) =
      if many then
        .arr (((db.joined f schema.tableName inner condition).map
          (relatedObject db f schema selection members inner)).map .obj)
      else
        ((db.joined f schema.tableName inner condition).head?.map fun row =>
          .obj (relatedObject db f schema selection members inner row)).getD .null := by
  unfold Database.related
  dsimp only
  simp only [untyped_fieldMembers]
  split
  · rw [List.map_map]
    rfl
  · cases db.joined f schema.tableName inner condition <;> rfl

/-- The object for a row of a table becomes the record of the row. -/
theorem record_of_supplies (hr : r.Coherent) (hdb : db.Faithful r) (hs : schema ∈ r.schemas)
    {selection : Selection} {nested : List IncludeNode} {row : Tuple}
    (hrow : row ∈ db.rows schema.tableName)
    (hfields : ∀ field ∈ selection.names schema, schema.hasField field)
    (hp : IncludeNode.AllResolve r schema nested) (hd : IncludeNode.AllDistinct nested)
    {members : List (String × Json)} (h : List.Forall₂ (r.Supplies db schema row) nested members) :
    r.SuppliesRecord db schema row selection nested
      (untypedMembers schema row selection ++ members) := by
  have hvalues : ∀ field ∈ selection.names schema,
      (row.get (columnName field)).Faithful (r.typeOf schema field) := by
    intro field hf
    obtain ⟨c, hc, -⟩ := r.column?_of_hasField (hfields field hf)
    have hcolumn : Rendering.column r schema field = .ok c := by rw [Rendering.column, hc]
    have hname := Rendering.column_eq_ok hcolumn
    have hvalue := hdb schema hs row hrow c (List.mem_of_find?_eq_some hc)
    rw [hname] at hvalue
    rwa [typeOf, hc]
  have hrecord := record_restored hfields hvalues (fun node hm =>
    (IncludeNode.allResolve_iff.1 hp node hm).hasField_relationship hr hs)
    (IncludeNode.allDistinct_iff.1 hd).1 h
  refine ⟨?_, hrecord.1, hrecord.2⟩
  refine Json.membersFaithful_iff.2 fun member hm => ?_
  rcases List.mem_append.1 hm with hm | hm
  · obtain ⟨field, hf, rfl⟩ := List.mem_map.1 hm
    exact (hvalues field hf).untyped
  · obtain ⟨node, -, hsup⟩ := exists_of_forall₂ h hm
    exact hsup.faithful

section

variable {relationship target : String} {selection : Selection} {nested : List IncludeNode}
  {row : Tuple} {a : Association} {rows : List Tuple} {object : Tuple → List (String × Json)}

/-- The objects for all related rows are what a node to many asks for. -/
theorem supplies_many (ha : r.association? schema relationship = some a)
    (hs : r.schema? target = some a.target) (hc : a.cardinality = .many)
    (hperm : rows.Perm (a.relatedRows db row))
    (hrows : ∀ next ∈ rows, r.SuppliesRecord db a.target next selection nested (object next)) :
    r.Supplies db schema row (.mk relationship target selection nested)
      (relationship, .arr ((rows.map object).map .obj)) := by
  refine ⟨rfl, ?_, a, ha, ?_⟩
  · refine Json.allFaithful_iff.2 fun item hitem => ?_
    simp only [List.mem_map] at hitem
    obtain ⟨_, ⟨next, hnext, rfl⟩, rfl⟩ := hitem
    exact (hrows next hnext).faithful
  · rw [restore_arr hs]
    unfold IncludeNode.Carries
    refine ⟨a, ha, ?_⟩
    rw [hc]
    refine ⟨rows, _, hperm, rfl, ?_⟩
    rw [List.map_map, List.forall₂_map_right_iff, List.forall₂_same]
    exact fun next hnext => ⟨(hrows next hnext).record, (hrows next hnext).carry⟩

/-- The object for the first related row, or null, is what a node to one asks for. -/
theorem supplies_one (ha : r.association? schema relationship = some a)
    (hs : r.schema? target = some a.target) (hc : a.cardinality = .one)
    (hperm : rows.Perm (a.relatedRows db row))
    (hrows : ∀ next ∈ rows, r.SuppliesRecord db a.target next selection nested (object next)) :
    r.Supplies db schema row (.mk relationship target selection nested)
      (relationship, (rows.head?.map fun next => .obj (object next)).getD .null) := by
  cases rows with
  | nil =>
    refine ⟨rfl, trivial, a, ha, ?_⟩
    rw [hc]
    unfold IncludeNode.Carries
    refine ⟨a, ha, ?_⟩
    rw [hc]
    exact .inl ⟨List.nil_perm.1 hperm, restore_null _⟩
  | cons next others =>
    obtain ⟨hfaithful, hrecord, hcarry⟩ := hrows next List.mem_cons_self
    refine ⟨rfl, hfaithful, a, ha, ?_⟩
    rw [hc]
    unfold IncludeNode.Carries
    refine ⟨a, ha, ?_⟩
    rw [hc]
    exact .inr ⟨next, hperm.subset List.mem_cons_self, _, restore_obj hs _ _, hrecord, hcarry⟩

end

mutual

/-- **What a query for related rows answers is what its include node asks for.** -/
theorem supplies_related (hr : r.Coherent) (hdb : db.Faithful r) : ∀ {node : IncludeNode}
    {schema : Schema} {table n m : Nat} {query : RelatedQuery} {f : Frame} {row : Tuple},
    schema ∈ r.schemas → node.Resolves r schema → node.Distinct →
    (Rendering.related r schema table node).run n = .ok (query, m) → table < n →
    f.Binds table schema.tableName row →
    r.Supplies db schema row node (node.relationship, db.related f query)
  | .mk relationship target selection nested, schema, table, n, m, query, f, row, hs, hp, hd, h,
      ht, hf => by
    obtain ⟨a, members, condition, k, l, ha, hmembers, hk, hjoin, hl, rfl⟩ :=
      Rendering.related_eq_ok h
    obtain ⟨b, hb, htarget, hfields, hnested⟩ := hp
    obtain rfl := Option.some.inj (hb.symm.trans ha)
    have htable : schema.tableName = b.source.tableName := Rendering.tableName_source ha
    have hmem : b.target ∈ r.schemas := hr.target b (mem_of_association? ha).1
    have hschema : r.schema? target = some b.target := by
      rw [htarget]
      exact hr.schema?_fullName hmem
    have hperm : (db.joined f b.target.tableName n condition).Perm (b.relatedRows db row) :=
      Rendering.perm_joined hjoin hl ht (htable ▸ hf)
    -- every related row, in a frame of its own
    have hrow (next : Tuple) (hnext : next ∈ db.joined f b.target.tableName n condition) :=
      record_of_supplies hr hdb hmem (Database.mem_rows_of_mem_joined hnext) hfields hnested hd
        (supplies_relatedMembers hr hdb hmem hnested hd hmembers hk
          (Frame.binds_push f n b.target.tableName next))
    rw [related_fieldMembers]
    cases hc : b.cardinality with
    | many =>
      simp only [decide_true, if_true]
      exact supplies_many ha hschema hc hperm hrow
    | one =>
      simp only [reduceCtorEq, decide_false, Bool.false_eq_true, if_false]
      exact supplies_one ha hschema hc hperm hrow

theorem supplies_relatedMembers (hr : r.Coherent) (hdb : db.Faithful r) :
    ∀ {nodes : List IncludeNode} {schema : Schema} {table n m : Nat}
    {members : List (String × RelatedQuery)} {f : Frame} {row : Tuple},
    schema ∈ r.schemas → IncludeNode.AllResolve r schema nodes → IncludeNode.AllDistinct nodes →
    (Rendering.relatedMembers r schema table nodes).run n = .ok (members, m) → table < n →
    f.Binds table schema.tableName row →
    List.Forall₂ (r.Supplies db schema row) nodes (db.relatedMembers f members)
  | [], schema, table, n, m, members, f, row, _, _, _, h, _, _ => by
    unfold Rendering.relatedMembers at h
    obtain ⟨rfl, -⟩ := Rendering.run_pure_eq_ok.1 h
    exact .nil
  | node :: rest, schema, table, n, m, members, f, row, hs, ⟨hnode, hrest⟩, ⟨_, hd, hds⟩, h, ht,
      hf => by
    obtain ⟨query, others, k, hquery, hothers, hk, rfl⟩ := Rendering.relatedMembers_eq_ok h
    exact .cons (supplies_related hr hdb hs hnode hd hquery ht hf)
      (supplies_relatedMembers hr hdb hs hrest hds hothers (by omega) hf)

end

/-! ## Answers to plans -/

variable {plan : Plan}

/-- The member that is decoded from what a query for related rows answers. -/
theorem carries_of_decodeRelated {row : Tuple} {node : IncludeNode} {json : Json}
    {member : String × Json} (hsup : r.Supplies db schema row node (node.relationship, json))
    (h : r.decodeRelated node
      ((r.association? schema node.relationship).elim .one (·.cardinality)) json = .ok member) :
    member.1 = node.relationship ∧ node.Carries r db schema row member.2 := by
  obtain ⟨a, ha, hcarries⟩ := hsup.carries
  obtain ⟨value, htext, h⟩ := bind_eq_ok.1 h
  rw [Json.throughText_eq hsup.faithful] at htext
  obtain rfl := Except.ok.inj htext
  obtain rfl := pure_eq_ok.1 h
  refine ⟨rfl, ?_⟩
  rw [ha]
  exact hcarries

/-- **A decoded row is the record of the stored one.** -/
theorem record_decode (hr : r.Coherent) (hs : schema ∈ r.schemas) (hp : plan.Reads r schema)
    (hd : IncludeNode.AllDistinct plan.includes) {row : Tuple} {related : List Json}
    (hrelated : List.Forall₂ (fun node json => r.Supplies db schema row node
      (node.relationship, json)) plan.includes related) {object : Object}
    (h : r.decode (plan.outputs r schema)
      ((plan.attributes.names schema).map fun field => row.get (columnName field), related) =
        .ok object) :
    r.Record schema row plan.attributes plan.includes object ∧
      IncludeNode.AllCarry r db schema row object plan.includes := by
  have hshows := shows_decode hr hs hp h
  refine record_of_get? hshows.fields (fun node hm => ?_) hshows.others
  obtain ⟨members, hmembers, rfl⟩ := decode_eq_ok h
  have hall : List.Forall₂ (fun node member => member.1 = node.relationship ∧
      node.Carries r db schema row member.2) plan.includes members := by
    refine (forall₂_of_zip hrelated hmembers).imp ?_
    rintro node member ⟨json, hsup, hdecode⟩
    exact carries_of_decodeRelated hsup hdecode
  have hkeys : members.map (·.1) = plan.includes.map (·.relationship) :=
    map_eq_map_of_forall₂ (hall.imp fun _ _ h => h.1)
  have hnodup := (IncludeNode.allDistinct_iff.1 hd).1
  rw [← hkeys] at hnodup
  obtain ⟨⟨key, value⟩, hmem, rfl, hcarries⟩ := exists_of_forall₂ hall.flip hm
  refine ⟨value, ?_, hcarries⟩
  refine Object.get?_ofList (List.mem_append_right _ hmem) fun v hv => ?_
  rcases List.mem_append.1 hv with hv | hv
  · obtain ⟨field, hf, he⟩ := List.mem_map.1 hv
    have hnode := (IncludeNode.allResolve_iff.1 hp.includes node hm).hasField_relationship hr hs
    obtain rfl : field = node.relationship := congrArg Prod.fst he
    rw [hp.attributes _ hf] at hnode
    cases hnode
  · exact congrArg Prod.snd (List.inj_on_of_nodup_map hnodup hv hmem rfl)

end Registry

end ResourceApi
