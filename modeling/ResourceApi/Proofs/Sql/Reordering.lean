import ResourceApi.Proofs.Sql.Relating

/-!
# Identifiers in another order

Links are written for a set of identifiers. Keys are set in the same rows whatever the order is. Of
several spellings of one link, the first that is inserted in a join table keeps the others out, so
there the order decides on the spelling only.

**Theorem (`Association.exists_executes_of_same`).** Where links can be written for some
identifiers, they can be written for the same ones in another order, or more often, and the database
holds the same afterwards (`Database.SameLinks`).
-/

namespace ResourceApi

variable {schemas : List Schema} {r : Registry} {schema : Schema} {a : Association}
  {join : JoinTable} {db mid db' d d' e : Database} {key table : String} {parent : Json}
  {ids ids' : List Json} {replace : Bool} {n : Nat}

/-- What is asked of any member does not depend on the order of the members. -/
theorem any_eq_of_same {α : Type} {xs ys : List α} (h : ∀ x, x ∈ ys ↔ x ∈ xs) (p : α → Bool) :
    ys.any p = xs.any p := by
  rw [Bool.eq_iff_iff, List.any_eq_true, List.any_eq_true]
  exact exists_congr fun x => and_congr_left' (h x)

/-- Where a column refers to a schema, it is stored as the primary keys of that schema. -/
theorem Registry.refersTo_of_reference (h : assemble schemas = .ok r) (hc : r.Creatable)
    {d : TableDefinition} (hd : d ∈ r.tables) {c : ColumnDefinition} (hm : c ∈ d.columns)
    (hs : schema ∈ r.schemas) {onDelete : OnDelete}
    (hk : .references schema.tableName schema.idColumn onDelete ∈ c.constraints) :
    c.RefersTo schema := by
  obtain ⟨referenced, hreferenced, hname, haffinity⟩ : ∃ referenced ∈ r.schemas,
      referenced.tableName = schema.tableName ∧ c.affinity = .ofKey referenced.idType := by
    rcases mem_tables hd with ⟨owner, -, rfl⟩ | ⟨first, made, hj, rfl⟩
    · obtain ⟨key, hkey, rfl⟩ := reference_tableOf hm hk
      obtain ⟨hname, -, -⟩ := reference_foreignKeyDefinition hk
      exact ⟨key.references, references_mem h (List.mem_filter.1 hkey).1, hname.symm, rfl⟩
    · have hcoherent := coherent_of_assemble h
      have hfirst := (mem_joinAssociations hj).1
      have hcolumn {field : String} {owner : Schema}
          (hk : .references schema.tableName schema.idColumn onDelete ∈
            (joinColumn field owner).constraints) : owner.tableName = schema.tableName := by
        simp only [joinColumn, List.mem_cons, List.not_mem_nil, or_false, reduceCtorEq, false_or,
          Constraint.references.injEq] at hk
        exact hk.1.symm
      rcases List.mem_cons.1 hm with rfl | hm
      · exact ⟨first.source, hcoherent.source first hfirst, hcolumn hk, rfl⟩
      · obtain rfl := List.mem_singleton.1 hm
        exact ⟨first.target, hcoherent.target first hfirst, hcolumn hk, rfl⟩
  obtain rfl := hc.eq_of_tableName hs hreferenced hname
  exact ⟨haffinity, onDelete, hk⟩

namespace Database

/-! ## References that hold alike -/

/-- A value that is stored as the primary keys of a schema refers to a row if it is one of them. -/
theorem IsKeyOf.referenceHolds {v : SqlValue} (h : db.IsKeyOf schema v)
    (hv : (db.affinity schema.tableName schema.idColumn).Keeps v) (onDelete : OnDelete) :
    db.referenceHolds v (.references schema.tableName schema.idColumn onDelete) = true := by
  obtain ⟨row, hrow, hequals⟩ := h
  unfold Database.referenceHolds
  rw [Bool.or_eq_true, List.any_eq_true]
  refine .inr ⟨row, hrow, ?_⟩
  rw [refers, hv.converted]
  exact hequals

/-- The values of a row are null, or else they are in some rows, up to their spelling. -/
def Echoes (row : Tuple) (rows : List Tuple) : Prop :=
  ∀ column, row.get column ≠ .null →
    ∃ other ∈ rows, (other.get column).equals (row.get column) = true

/-- **References hold** where a table beside those of schemas has the same values. -/
theorem referencesHold_of_rewrites (h : Registry.assemble schemas = .ok r) (hc : r.Creatable)
    (hnot : table ∉ r.schemas.map (·.tableName)) (hd : d.Intact r) (hw : Rewrites table d e)
    (hrows : ∀ row ∈ e.rows table,
      (∀ column, (e.affinity table column).Keeps (row.get column)) ∧ Echoes row (d.rows table)) :
    e.referencesHold = true := by
  have hdefinitions := (definitions_of_frame hw.frame).trans hd.regular.sound.definitions
  have hparallel := hw.parallel hnot
  refine referencesHold_iff.2 ?_
  intro u hu row hrow c hcolumn k hk
  cases k with
  | references name column onDelete =>
    have hm : u.definition ∈ r.tables := hdefinitions ▸ List.mem_map_of_mem hu
    obtain ⟨target, htarget, rfl, rfl⟩ := Registry.reference_target h hm hcolumn hk
    have hfind : e.table? u.name = some u :=
      find?_eq_some_of_nodup (nodup_names hdefinitions hc) hu
    have hmem : row ∈ e.rows u.name := by rwa [rows, hfind]
    rw [hparallel.referenceHolds htarget]
    by_cases hn : u.name = table
    · rw [hn] at hmem
      obtain ⟨hkeeps, hechoes⟩ := hrows row hmem
      by_cases hnull : row.get c.name = .null
      · simp [Database.referenceHolds, hnull]
      obtain ⟨other, hother, hequals⟩ := hechoes c.name hnull
      have hrefersTo := Registry.refersTo_of_reference h hc hm hcolumn htarget hk
      have hrefers : r.Refers table c.name target :=
        ⟨u.definition, hm, hn, c, hcolumn, rfl, hrefersTo⟩
      have hkey := isKeyOf_of_refers hc hd.regular.sound hd.regular.proper htarget hrefers hother
        (SqlValue.equals_iff.1 hequals).1
      refine (hkey.congr hequals).referenceHolds ?_ onDelete
      have haffinity := hkeeps c.name
      rw [affinity_of_frame hw.frame, affinity_of_refers hc hd.regular.sound hrefers] at haffinity
      rwa [affinity_idColumn hc hd.regular.sound htarget]
    · rw [hw.rows u.name hn] at hmem
      obtain ⟨v, hv, hrow⟩ := mem_rows_iff.1 hmem
      obtain ⟨w, hw', hsame, -⟩ := exists_table?_of_frame hw.frame hv
      obtain rfl := Option.some.inj (hfind.symm.trans hw')
      exact referencesHold_iff.1 hd.regular.sound.references v (mem_of_table? hv) row hrow c
        (hsame ▸ hcolumn) _ hk
  | _ => rfl

/-! ## Links up to their spelling -/

/-- The databases are the same, but for the spelling of the links of an association. -/
structure SameLinks (a : Association) (db db' : Database) : Prop where
  frame : db'.frame = db.frame
  rows : ∀ name, (name, none) ≠ a.place → db'.rows name = db.rows name
  links : ∀ p q, db'.Links a p q ↔ db.Links a p q

theorem SameLinks.refl (a : Association) (db : Database) : SameLinks a db db where
  frame := rfl
  rows _ _ := rfl
  links _ _ := .rfl

/-- Keys are set where the guards hold, whatever the guards are. -/
theorem execute_setKey_congr {column : String} {value : Option SqlValue}
    {guards guards' : List Guard}
    (hg : ∀ row, guards'.all (db.guardHolds table row) = guards.all (db.guardHolds table row)) :
    db.execute (.setKey table column value guards') =
      db.execute (.setKey table column value guards) := by
  show db.updateRows table _ _ = db.updateRows table _ _
  congr 1
  funext row
  exact hg row

/-- Statements that do the same one by one do the same together. -/
theorem Executes.congr {statements statements' : List Statement}
    (hs : List.Forall₂ (fun x y => ∀ db : Database, db.execute y = db.execute x) statements
      statements') (h : db.Executes statements db') : db.Executes statements' db' := by
  induction hs generalizing db with
  | nil => exact h
  | cons hfirst _ ih =>
    cases h with
    | cons he hrest =>
      rw [← hfirst] at he
      exact .cons he (ih hrest)

/-- Statements lead to one database. -/
theorem Executes.unique {statements : List Statement} (h : db.Executes statements d)
    (h' : db.Executes statements d') : d' = d := by
  induction h with
  | nil =>
    cases h'
    rfl
  | cons he _ ih =>
    cases h' with
    | cons he' hrest =>
      obtain ⟨rfl, -⟩ := Prod.mk.inj (Except.ok.inj (he.symm.trans he'))
      exact ih hrest

end Database

namespace Association

open Database

/-! ## Keys -/

section

variable (hsame : ∀ id, id ∈ ids' ↔ id ∈ ids)
include hsame

theorem isEmpty_eq_of_same : ids'.isEmpty = ids.isEmpty := by
  rw [Bool.eq_iff_iff, List.isEmpty_iff, List.isEmpty_iff, List.eq_nil_iff_forall_not_mem,
    List.eq_nil_iff_forall_not_mem]
  exact forall_congr' fun id => not_congr (hsame id)

theorem guardHolds_of_same (db : Database) (table column : String) (row : Tuple) :
    db.guardHolds table row (.among column (ids'.map .ofJson)) =
        db.guardHolds table row (.among column (ids.map .ofJson)) ∧
      db.guardHolds table row (.notAmong column (ids'.map .ofJson)) =
        db.guardHolds table row (.notAmong column (ids.map .ofJson)) := by
  have hvalues : ∀ v, v ∈ ids'.map SqlValue.ofJson ↔ v ∈ ids.map SqlValue.ofJson := by
    intro v
    simp only [List.mem_map, hsame]
  have hnull : (ids'.map SqlValue.ofJson).contains .null =
      (ids.map SqlValue.ofJson).contains .null := by
    rw [Bool.eq_iff_iff, List.contains_iff_mem, List.contains_iff_mem]
    exact hvalues .null
  constructor
  · exact any_eq_of_same hvalues _
  · simp only [guardHolds]
    rw [hnull, any_eq_of_same hvalues]

/-- Keys are set in the same way for the same identifiers. -/
theorem executes_of_same_of_hasKey (hk : a.HasKey key)
    (hx : db.Executes (Statement.ofLinks a parent ids replace) db') :
    db.Executes (Statement.ofLinks a parent ids' replace) db' := by
  have hempty := isEmpty_eq_of_same hsame
  refine hx.congr ?_
  rw [ofLinks_of_hasKey hk, ofLinks_of_hasKey hk, hempty]
  apply List.rel_append
  · split
    · refine .cons (fun db => execute_setKey_congr fun row => ?_) .nil
      split
      · rfl
      · rw [List.all_cons, List.all_cons, List.all_cons, List.all_cons,
          (guardHolds_of_same hsame db _ _ row).2]
    · exact .nil
  · split
    · exact .nil
    · refine .cons (fun db => execute_setKey_congr fun row => ?_) .nil
      rw [List.all_cons, List.all_cons, (guardHolds_of_same hsame db _ _ row).1]

end

/-! ## Rows of join tables -/

/-- A link that is there, in some spelling, and that has no nulls, has the values of a row. -/
theorem echoes_of_skips {t : Table} {near far : String} {source target : SqlValue}
    (h : t.JoinsBy near far) (hskips : t.Skips near far source target)
    (hfilled : ∀ c ∈ t.definition.columns,
      c.acceptsNull ((t.rowOf [(near, source), (far, target)]).get c.name) = true) :
    Echoes (t.rowOf [(near, source), (far, target)]) t.rows := by
  obtain ⟨hnear, hfar⟩ := h.get_rowOf_link source target
  have hne : ∀ name ∈ t.definition.columns.map (·.name),
      (t.rowOf [(near, source), (far, target)]).get name ≠ .null := by
    intro name hname hnull
    obtain ⟨c, hc, rfl⟩ := List.mem_map.1 hname
    have haccepts := hfilled c hc
    rw [hnull, h.required c hc] at haccepts
    cases haccepts
  obtain ⟨other, hother, hn, hf⟩ := (hskips.resolve_left (hnear ▸ hne near h.hasNear)).resolve_left
    (hfar ▸ hne far h.hasFar)
  intro column hcolumn
  have hmem : column ∈ t.definition.columns.map (·.name) := by
    by_contra hnot
    rw [Table.get_rowOf, if_neg hnot] at hcolumn
    exact hcolumn rfl
  refine ⟨other, hother, ?_⟩
  rw [SqlValue.equals_comm]
  obtain ⟨c, hc, rfl⟩ := List.mem_map.1 hmem
  rcases h.only c hc with hname | hname <;> rw [hname]
  · rw [hnear]
    exact hn
  · rw [hfar]
    exact hf

section

variable (h : Registry.assemble schemas = .ok r) (hc : r.Creatable) (ha : a ∈ r.associations)
  (hr : a.StoresEnds r) (hd : d.Intact r) (hd' : d'.Intact r) (hk : a.kind = .hasManyThrough join)
include h hc ha hr hd hd' hk

/-- **Links can be inserted in another order.** Each row that is inserted then has the keys of one
that was inserted before, so its references hold as well. -/
theorem exists_insertLinks_of_same (hsame : ∀ id, id ∈ ids' ↔ id ∈ ids)
    (hi : d.insertLinks join.table (columnName join.sourceKey) (columnName join.targetKey)
      (.ofJson parent) (ids.map .ofJson) = .ok (d', n)) :
    ∃ e m, d.insertLinks join.table (columnName join.sourceKey) (columnName join.targetKey)
      (.ofJson parent) (ids'.map .ofJson) = .ok (e, m) ∧ Rewrites join.table d' e := by
  have hnot := notMem_tableNames h hc ha hk
  have hnames := nodup_names hd.regular.sound.definitions hc
  obtain ⟨t, added, happends⟩ := exists_appends_of_insertLinks h hc ha hk hd hi
  obtain ⟨u, hu, hm, hjoins⟩ := exists_joinsBy hk h hc ha hr hd.regular
  obtain rfl := Option.some.inj (happends.writes.before.symm.trans hu)
  have hskips := hjoins.skips_of_insertEach happends.inserted
  obtain ⟨t', hinserted⟩ := Table.exists_insertEach hjoins.unassigned
    ((ids'.map SqlValue.ofJson).map fun target =>
      [(columnName join.sourceKey, SqlValue.ofJson parent), (columnName join.targetKey, target)])
  obtain ⟨added', rfl, hstored⟩ := Table.exists_added_of_insertEach hjoins.unassigned hinserted
  have hagain : Appends d (d.modify join.table fun _ => { t with rows := t.rows ++ added' })
      join.table _ t added' := ⟨⟨hu, rfl, rfl⟩, hinserted, hstored⟩
  generalize d.modify join.table (fun _ => { t with rows := t.rows ++ added' }) = e at hagain
  have hfirst := happends.rewrites hnames
  have hsecond := hagain.rewrites hnames
  have hrewrites : Rewrites join.table d' e :=
    ⟨hsecond.frame.trans hfirst.frame.symm,
      fun name hname => (hsecond.rows name hname).trans (hfirst.rows name hname).symm⟩
  have hafter : e.table? join.table = some { t with rows := t.rows ++ added' } := by
    rw [hagain.writes.table?, hagain.writes.before]
    simp
  have hsound := (Table.sound_insertEach (hd.regular.sound.tables t hm) hinserted).1
  have hkept : ({ t with rows := t.rows ++ added' } : Table).Kept := by
    refine (hd.regular.proper.kept t hm).insertEach ?_ hinserted
    intro values hvalues c hcell
    obtain ⟨target, htarget, rfl⟩ := List.mem_map.1 hvalues
    obtain ⟨id, -, rfl⟩ := List.mem_map.1 htarget
    rcases List.mem_cons.1 hcell with rfl | hcell
    · exact SqlValue.isWritten_ofJson parent
    · obtain rfl := List.mem_singleton.1 hcell
      exact SqlValue.isWritten_ofJson id
  have hrows : e.rows join.table = t.rows ++ added' := by rw [rows, hafter]
  have hrows' : d'.rows join.table = t.rows ++ added := by
    rw [happends.rows, rows, happends.writes.before]
  have hreferences : e.referencesHold = true := by
    refine referencesHold_of_rewrites h hc hnot hd' hrewrites fun row hrow => ⟨fun column => ?_, ?_⟩
    · rw [Database.affinity, hafter]
      exact (hkept.rows row (hrows ▸ hrow)).values column
    · rw [hrows] at hrow
      rw [hrows']
      rcases List.mem_append.1 hrow with hrow | hrow
      · intro column hcolumn
        exact ⟨row, List.mem_append_left _ hrow, SqlValue.equals_self hcolumn⟩
      · have hfilled := (hsound.rows row (List.mem_append_right _ hrow)).filled
        obtain ⟨values, hvalues, rfl⟩ := hstored row hrow
        obtain ⟨target, htarget, rfl⟩ := List.mem_map.1 hvalues
        have hgiven : target ∈ ids.map SqlValue.ofJson := by
          obtain ⟨id, hid, rfl⟩ := List.mem_map.1 htarget
          exact List.mem_map_of_mem ((hsame id).1 hid)
        have hjoins' : ({ t with rows := t.rows ++ added } : Table).JoinsBy
            (columnName join.sourceKey) (columnName join.targetKey) := hjoins.of_definition rfl
        exact echoes_of_skips hjoins' (hskips target hgiven) hfilled
  obtain ⟨m, hinsert⟩ := hagain.insertLinks rfl hreferences
  exact ⟨e, m, hinsert, hrewrites⟩

end

/-! ## Links of either kind -/

/-- **Identifiers count once, and in any order.** -/
theorem exists_executes_of_same (h : Registry.assemble schemas = .ok r) (hc : r.Creatable)
    (ha : a ∈ r.associations) (hr : a.StoresEnds r) (hd : d.Intact r)
    (hkind : ∀ key, a.kind ≠ .belongsTo key) (hsame : ∀ id, id ∈ ids' ↔ id ∈ ids)
    (hx : d.Executes (Statement.ofLinks a parent ids replace) d') :
    ∃ e, d.Executes (Statement.ofLinks a parent ids' replace) e ∧ SameLinks a d' e := by
  rcases hasKey_or_through hkind with ⟨key, hk⟩ | ⟨join, hk⟩
  · exact ⟨d', executes_of_same_of_hasKey hsame hk hx, .refl a d'⟩
  · have hl := Registry.tablesLinked h hc
    have hstatements := ofLinks_of_through hk parent ids replace
    rw [ofLinks_of_through hk, isEmpty_eq_of_same hsame]
    rw [hstatements] at hx
    obtain ⟨mid, hdelete, hinsert⟩ := hx.exists_of_append
    have hmid := hd.executes hl hdelete (hstatements ▸ List.subset_append_left _ _)
    rcases executes_unless_iff.1 hinsert with ⟨hempty, rfl⟩ | ⟨hsome, n, hlinks⟩
    · exact ⟨d', hdelete.append (executes_unless_iff.2 (.inl ⟨hempty, rfl⟩)), .refl a d'⟩
    · have hd' := hmid.executes hl hinsert (hstatements ▸ List.subset_append_right _ _)
      obtain ⟨e, m, hagain, hrewrites⟩ :=
        exists_insertLinks_of_same h hc ha hr hmid hd' hk hsame hlinks
      refine ⟨e, hdelete.append (executes_unless_iff.2 (.inr ⟨hsome, m, hagain⟩)),
        hrewrites.frame, fun name hname => ?_, ?_⟩
      · refine hrewrites.rows name fun hn => hname ?_
        rw [place, hk, hn]
      · intro p q
        rw [links_of_insertLinks h hc ha hk hr hmid hagain,
          links_of_insertLinks h hc ha hk hr hmid hlinks]
        have hamong : a.target.isAmong ids' q = a.target.isAmong ids q := any_eq_of_same hsame _
        rw [hamong]

end Association

end ResourceApi
