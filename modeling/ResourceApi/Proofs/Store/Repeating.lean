import ResourceApi.Proofs.Sql.Addressed
import ResourceApi.Proofs.Sql.Rejoining
import ResourceApi.Proofs.Store.Success

/-!
# Writes that are repeated

A run sets a row, if there is anything to set, and then replaces the links of the row, association
by association (`Session.Sets`, `Session.Relinks`). Where both have been done before, they can be done
again, and they lead to the same database.

**Theorem (`Session.Relinks.again`).** Links can be replaced again on the way to the end of the run
that has replaced them, if those of each association have a place of their own.

**Theorem (`Database.Between.of_updateRows`).** The row can be set again at the end of the run, and
the result is on the way to this end: columns to which links have been written since then have the
values of the first run once more. They must not identify rows for that.
-/

namespace ResourceApi

variable {schemas : List Schema} {r : Registry} {schema : Schema} {a : Association}
  {db mid db' d d' e e' z : Database} {places : List (String × Option String)}

/-! ## Rows that are set again -/

namespace Table

variable {t : Table} {values row row' : Tuple} {column : String}

/-- What becomes of a column depends on its value at most. -/
theorem get_assign_congr (hc : row'.map (·.1) = row.map (·.1))
    (h : column ∈ values.map (·.1) ∨ row'.get column = row.get column) :
    (t.assign values row').get column = (t.assign values row).get column := by
  unfold assign
  induction values generalizing row row' with
  | nil => simpa using h
  | cons m rest ih =>
    refine ih (by rw [Tuple.columns_set, Tuple.columns_set, hc]) ?_
    rw [Tuple.get_set, Tuple.get_set, hc]
    by_cases hm : column = m.1
    · subst hm
      by_cases hmem : m.1 ∈ row.map (·.1)
      · exact .inr (by rw [if_pos ⟨rfl, hmem⟩, if_pos ⟨rfl, hmem⟩])
      · -- rows without the column have no value in it
        rw [if_neg fun h => hmem h.2, if_neg fun h => hmem h.2, Tuple.get_of_notMem hmem,
          Tuple.get_of_notMem (hc ▸ hmem)]
        exact .inr rfl
    · rw [if_neg fun h => hm h.1, if_neg fun h => hm h.1]
      exact h.imp_left fun h => (List.mem_cons.1 h).resolve_left hm

theorem get_changed_congr {picked : Tuple → Bool} (hp : picked row' = picked row)
    (hc : row'.map (·.1) = row.map (·.1))
    (h : picked row = true ∧ column ∈ values.map (·.1) ∨ row'.get column = row.get column) :
    (t.changed picked values row').get column = (t.changed picked values row).get column := by
  unfold changed
  rw [hp]
  split
  · exact get_assign_congr hc (h.imp_left And.right)
  · rename_i hnot
    exact h.resolve_left fun h => hnot h.1

end Table

namespace Database

section

variable {id : Json} {row row' values : Tuple} {n : Nat} {t : Table} (hc : r.Creatable)
  (hs : schema ∈ r.schemas)
include hc hs

/-- The rendered condition picks the row with the identifier. -/
theorem Regular.hasKeyOf_idIs (hdb : db.Regular r) (hrow : row ∈ db.rows schema.tableName) :
    db.hasKeyOf (.idIs schema id) row = db.hasId schema id row := by
  rw [Bool.eq_iff_iff]
  refine ⟨fun hpicked => ?_, hasKeyOf_of_hasId hc hdb.sound hs hrow⟩
  unfold hasKeyOf at hpicked
  rw [keys_idIs hc hdb.sound hs] at hpicked
  obtain ⟨key, hkey, hequals⟩ := List.any_eq_true.1 hpicked
  obtain ⟨other, ho, rfl⟩ := List.mem_map.1 hkey
  obtain ⟨ho, hid⟩ := List.mem_filter.1 ho
  rwa [hdb.eq_of_equals hc hs hrow ho hequals]

/-- Rows with the identifier have the same primary key. -/
theorem Regular.get_idColumn_eq (hdb : db.Regular r) (hdb' : db'.Regular r)
    (hrow : row ∈ db.rows schema.tableName) (hrow' : row' ∈ db'.rows schema.tableName)
    (hid : db.hasId schema id row = true) (hid' : db.hasId schema id row' = true) :
    row'.get schema.idColumn = row.get schema.idColumn := by
  refine (hdb'.holdsKey hc hs hrow').eq_of_equals (hdb.holdsKey hc hs hrow)
    (SqlValue.equals_trans hid' ?_)
  rwa [SqlValue.equals_comm]

theorem Regular.hasId_eq (hdb : db.Regular r) (hdb' : db'.Regular r) :
    db'.hasId schema id = db.hasId schema id := by
  funext row
  rw [hasId, hasId, affinity_idColumn hc hdb.sound hs, affinity_idColumn hc hdb'.sound hs]

/-- An update of a row that has its identifier afterwards has kept all primary keys. -/
theorem Regular.keepsId_of_updateRows (hdb : db.Regular r) (hdb' : db'.Regular r)
    (hu : db.updateRows schema.tableName (db.hasId schema id) values = .ok (db', n))
    (ht : db.table? schema.tableName = some t)
    (hfound : ∃ row ∈ db'.rows schema.tableName, db.hasId schema id row = true) :
    ∀ row ∈ db.rows schema.tableName,
      (t.changed (db.hasId schema id) values row).get schema.idColumn =
        row.get schema.idColumn := by
  obtain ⟨u, hu, hrows, -⟩ := rows_updateRows hu
  obtain rfl := Option.some.inj (ht.symm.trans hu)
  obtain ⟨after, hafter, hid⟩ := hfound
  obtain ⟨before, hbefore, hchanged⟩ := List.mem_map.1 (hrows.subset hafter)
  have hpicked : db.hasId schema id before = true := by
    by_contra hnot
    rw [Table.changed, if_neg hnot] at hchanged
    exact hnot (hchanged ▸ hid)
  intro row hrow
  by_cases hrowid : db.hasId schema id row = true
  · have hsame := hdb.get_idColumn_eq hc hs hdb hbefore hrow hpicked hrowid
    rw [hdb.eq_of_get hc hs hrow hbefore hsame, hchanged]
    exact hdb.get_idColumn_eq hc hs hdb' hbefore hafter hpicked hid
  · rw [Table.changed, if_neg hrowid]

/-- **A row can be set again at the end of a run** that has set it, unless links have been written
to a column of it that identifies rows. -/
theorem Between.of_updateRows (h : Registry.assemble schemas = .ok r) (hd : d.Intact r)
    (hd' : d'.Intact r) (hz : z.Intact r)
    (hu : d.updateRows schema.tableName (d.hasKeyOf (.idIs schema id)) values = .ok (d', n))
    (hsame : SameBeside r places d' z)
    (hplaces : ∀ column ∈ values.map (·.1), (schema.tableName, some column) ∈ places →
      schema.Repeats column)
    (hfound : ∃ row ∈ z.rows schema.tableName, z.hasId schema id row = true) :
    Parallel r d z ∧ ∃ e' m,
      z.updateRows schema.tableName (z.hasKeyOf (.idIs schema id)) values = .ok (e', m) ∧
        Between r d' e' z := by
  have hids : z.hasId schema id = d.hasId schema id := hd.regular.hasId_eq hc hs hz.regular
  rw [updateRows_congr fun row hrow => hd.regular.hasKeyOf_idIs hc hs hrow] at hu
  rw [updateRows_congr fun row hrow => hz.regular.hasKeyOf_idIs hc hs hrow, hids]
  obtain ⟨t, ht, hdefinition⟩ := exists_tableOf hd.regular.sound.definitions hc.tableNames hs
  have hkeeps := hd.regular.keepsId_of_updateRows hc hs hd'.regular hu ht <| by
    obtain ⟨row, hrow, hid⟩ := hfound
    obtain ⟨row', hrow', hsame⟩ := hsame.parallel.symm.exists_row hs hrow
    refine ⟨row', hrow', ?_⟩
    rw [← hids]
    rwa [hasId, hsame]
  have hmapped := hd.eq_mapRows hc hs hdefinition hkeeps hu
  have hparallel : Parallel r d z := by
    refine Parallel.trans ?_ hsame.parallel
    rw [hmapped]
    exact .mapRows hc hs hkeeps
  -- corresponding rows are picked alike, and where they are, the same is set in them
  have hpicks (a c : Tuple) (hac : a.get schema.idColumn = c.get schema.idColumn) :
      d.hasId schema id a = d.hasId schema id c := by
    rw [hasId, hasId, hac]
  have hcolumns {a c : Tuple} (had : a ∈ d.rows schema.tableName)
      (hcz : c ∈ z.rows schema.tableName) : c.map (·.1) = a.map (·.1) :=
    (hz.columns_of_mem hc hs hcz).trans (hd.columns_of_mem hc hs had).symm
  refine ⟨hparallel,
    (Between.start hparallel hz.regular hc).updateRows hc hs hdefinition h hd hd' hz hz hu ?_ ?_⟩
  · rintro row (hrow | hrow)
    · exact hkeeps row hrow
    · obtain ⟨a, had, hac⟩ := hparallel.symm.exists_row hs hrow
      rw [Table.get_changed_congr (hpicks a row hac).symm (hcolumns had hrow) (.inr hac.symm),
        hkeeps a had, hac]
  · intro a had b hbz c hcz hac hbc column
    obtain rfl := hz.regular.eq_of_get hc hs hbz hcz hbc
    by_cases hset : d.hasId schema id a = true ∧ column ∈ values.map (·.1)
    · have hagain := Table.get_changed_congr (t := t) (hpicks a b hac).symm (hcolumns had hbz)
        (.inl hset)
      by_cases hplace : (schema.tableName, some column) ∈ places
      · exact .inr ⟨hplaces column hset.2 hplace, hagain⟩
      · have hafter : t.changed (d.hasId schema id) values a ∈ d'.rows schema.tableName := by
          rw [hmapped, rows_mapRows_self]
          exact List.mem_map_of_mem had
        refine .inl (hagain.trans (hsame.cells schema hs _ hafter b hbz ?_ column hplace).symm)
        rw [hkeeps a had, hac]
    · refine .inl ?_
      rw [Table.changed]
      split
      · rename_i hp
        exact Table.get_assign_of_notMem (fun hm => hset ⟨(hpicks a b hac).trans hp, hm⟩) b
      · rfl

end

end Database

namespace Session

open Database

/-! ## Checks -/

section

variable (h : Registry.assemble schemas = .ok r) (hc : r.Creatable) (hd : d.Regular r)
  (he : e.Regular r)
include h hc hd he

/-- Regular databases accept the same statements. -/
theorem verified_of_regular {statement : Statement} {sql : String}
    (hv : verified d statement sql = .ok ()) : verified e statement sql = .ok () := by
  have hdefinitions : e.tables.map (·.definition) = d.tables.map (·.definition) :=
    he.sound.definitions.trans hd.sound.definitions.symm
  unfold verified at hv ⊢
  obtain ⟨⟨⟩, hsize, hv⟩ := bind_eq_ok.1 hv
  obtain ⟨⟨⟩, hnames, hv⟩ := bind_eq_ok.1 hv
  obtain ⟨⟨⟩, horder, -⟩ := bind_eq_ok.1 hv
  rw [hsize, check_of_definitions hdefinitions, hnames, horder,
    e.checkTargets_eq_ok (isAstray_eq_false h hc he.sound.definitions)]
  rfl

/-- Parallel databases find the same identifiers. -/
theorem existing_of_parallel (hs : schema ∈ r.schemas) (hp : Parallel r d e) {ids found : List Json}
    (hx : existing schema ids d = .ok found) : existing schema ids e = .ok found := by
  unfold existing at hx ⊢
  cases hids : ids.isEmpty with
  | true =>
    rw [hids] at hx
    exact hx
  | false =>
    rw [hids] at hx
    obtain ⟨⟨⟩, hverified, hfound⟩ := bind_eq_ok.1 hx
    refine bind_eq_ok.2 ⟨(), verified_of_regular h hc hd he hverified, ?_⟩
    have hpresent : e.present schema.tableName schema.idColumn (ids.map .ofJson) =
        d.present schema.tableName schema.idColumn (ids.map .ofJson) := by
      rw [present, present, hp.ids schema hs, affinity_of_frame hp.frame]
    rw [hpresent]
    exact hfound

end

/-! ## Links -/

/-- The links of a parent are replaced, association by association, by links to rows that are
there. -/
inductive Relinks (parent : Json) : Database → List (Association × List Json) → Database → Prop
  | nil (db : Database) : Relinks parent db [] db
  | cons {db mid db' : Database} {a : Association} {ids : List Json}
      {rest : List (Association × List Json)} :
    Required a.target ids db → Performs db (Statement.ofLinks a parent ids true) mid →
    Relinks parent mid rest db' → Relinks parent db ((a, ids) :: rest) db'

section

variable (h : Registry.assemble schemas = .ok r) (hc : r.Creatable)
include h hc

section

variable {parent : Json} {ids : List Json} {replace : Bool} {statements : List Statement}
  (hsub : statements ⊆ Statement.ofLinks a parent ids replace)
include hsub

/-- Statements for links that have been performed are accepted from the beginning. -/
theorem Performs.verified (hx : Performs d statements d') (hd : d.Regular r) :
    ∀ statement ∈ statements, verified d statement statement.sql = .ok () := by
  induction hx with
  | nil => exact List.forall_mem_nil _
  | @cons d mid d' statement rest n hexecuted _ ih =>
    obtain ⟨hfirst, hrest⟩ := List.cons_subset.1 hsub
    obtain ⟨hverified, hexecute⟩ := executed_eq_ok_iff.1 hexecuted
    have hmid := hd.execute (Registry.tablesLinked h hc)
      (Statement.isWritten_ofLinks _ hfirst) hexecute
    refine List.forall_mem_cons.2 ⟨hverified, fun other ho => ?_⟩
    exact verified_of_regular h hc hmid hd (ih hrest hmid other ho)

/-- Statements for links are performed if they are accepted and can be executed. -/
theorem performs_of_executes (hx : e.Executes statements e') (he : e.Regular r)
    (hv : ∀ statement ∈ statements, Session.verified e statement statement.sql = .ok ()) :
    Performs e statements e' := by
  induction hx with
  | nil => exact .nil _
  | @cons e mid e' statement rest n hexecute _ ih =>
    obtain ⟨hfirst, hrest⟩ := List.cons_subset.1 hsub
    obtain ⟨hverified, hothers⟩ := List.forall_mem_cons.1 hv
    have hmid := he.execute (Registry.tablesLinked h hc)
      (Statement.isWritten_ofLinks _ hfirst) hexecute
    exact .cons (executed_eq_ok_iff.2 ⟨hverified, hexecute⟩)
      (ih hrest hmid fun other ho => verified_of_regular h hc he hmid (hothers other ho))

end

/-- Links that have been inserted in a join table have been inserted in its columns. -/
theorem hasColumn_of_performs {parent : Json} {ids : List Json} (hd : d.Regular r)
    (hx : Performs d (Statement.ofLinks a parent ids true) d') {join : JoinTable}
    (hk : a.kind = .hasManyThrough join) (hids : ids.isEmpty = false) :
    d.hasColumn join.table (columnName join.sourceKey) = true := by
  have hverified := hx.verified h hc (List.Subset.refl _) hd (.insertLinks join.table
    (columnName join.sourceKey) (columnName join.targetKey) (.ofJson parent) (ids.map .ofJson))
    (by simp [Association.ofLinks_of_through hk, hids])
  obtain ⟨⟨⟩, -, hverified⟩ := bind_eq_ok.1 hverified
  obtain ⟨⟨⟩, hnames, -⟩ := bind_eq_ok.1 hverified
  have hnames := mapError_eq_ok.1 hnames
  simp only [check, checkInserted] at hnames
  split at hnames
  · rename_i hnone
    simpa using List.find?_eq_none.1 hnone _ List.mem_cons_self
  · cases hnames

namespace Relinks

variable {parent : Json} {links : List (Association × List Json)}

/-- Nothing changes beside the places of the links. -/
theorem sameBeside (hx : Relinks parent d links d') (hlinks : ∀ x ∈ links, x.1.Rewritable r)
    (hd : d.Intact r) : SameBeside r (links.map (·.1.place)) d d' := by
  induction hx with
  | nil => exact .refl hd.regular hc []
  | cons _ hperforms _ ih =>
    obtain ⟨hfirst, hrest⟩ := List.forall_mem_cons.1 hlinks
    have hmid := hd.executes (Registry.tablesLinked h hc) hperforms.executes (List.Subset.refl _)
    exact (hfirst.sameBeside h hc hd hperforms.executes).trans (ih hrest hmid)

/-- **Links that have been replaced can be replaced again**, if those of each association have a
place of their own. -/
theorem again (hx : Relinks parent d links z) (hlinks : ∀ x ∈ links, x.1.Rewritable r)
    (hn : (links.map (·.1.place)).Nodup) (hb : Between r d e z) (hd : d.Intact r) (he : e.Intact r)
    (hz : z.Intact r) : Relinks parent e links z := by
  have hl := Registry.tablesLinked h hc
  induction hx generalizing e with
  | nil =>
    obtain rfl := hb.eq hc he hz
    exact .nil e
  | @cons d mid z a ids rest hrequired hperforms hrelinks ih =>
    obtain ⟨hfirst, hrest⟩ := List.forall_mem_cons.1 hlinks
    obtain ⟨hnot, hnodup⟩ := List.nodup_cons.1 hn
    have hexecutes := hperforms.executes
    have hmid := hd.executes hl hexecutes (List.Subset.refl _)
    obtain ⟨e', hexecutes', hb'⟩ := hfirst.relink h hc hb hd he hz
      (fun join hk hids => hasColumn_of_performs h hc hd.regular hperforms hk hids) hexecutes
      (hrelinks.sameBeside h hc hrest hmid) hnot
    have he' := he.executes hl hexecutes' (List.Subset.refl _)
    obtain ⟨found, hfound, hall⟩ := hrequired
    have ht := (Registry.coherent_of_assemble h).target a hfirst.declared
    refine .cons ⟨found, ?_, hall⟩ ?_ (ih hrest hnodup hb' hmid he' hz)
    · have hparallel := hb.first.trans hb.second.symm
      exact existing_of_parallel h hc hd.regular he.regular ht hparallel hfound
    · refine performs_of_executes h hc (List.Subset.refl _) hexecutes' he.regular ?_
      exact fun statement hm => verified_of_regular h hc hd.regular he.regular
        (hperforms.verified h hc (List.Subset.refl _) hd.regular statement hm)

end Relinks

/-- An update keeps a database intact. -/
theorem intact_of_updated {row : Object} {filter : Predicate} {n : Nat} (hd : d.Intact r)
    (hx : updated schema row filter r d = .ok (d', n)) : d'.Intact r := by
  cases hempty : row.isEmpty with
  | true =>
    unfold updated at hx
    rw [if_pos hempty] at hx
    obtain ⟨count, -, he⟩ := map_eq_ok.1 hx
    obtain ⟨rfl, -⟩ := Prod.mk.inj he
    exact hd
  | false =>
    obtain ⟨statement, hstatement, hexecuted⟩ := (updated_eq_ok_iff hempty).1 hx
    exact hd.execute (Registry.tablesLinked h hc) (Statement.isWritten_ofUpdate hstatement)
      (executed_eq_ok_iff.1 hexecuted).2

variable {row : Object} {id : Json} (hk : schema.Addressable) (hs : schema ∈ r.schemas)
  (hd : d.Intact r) (hz : z.Intact r)
  (hplaces : ∀ field ∈ row.keys, (schema.tableName, some (columnName field)) ∈ places →
    schema.Repeats (columnName field))
  (hfound : ∃ stored ∈ z.rows schema.tableName, z.hasId schema id stored = true)
include hk hs hd hz hplaces hfound

/-- **An update of a row can be repeated** at the end of a run of which it was a part. -/
theorem updated_again {n : Nat} (hne : row.isEmpty = false)
    (hx : updated schema row (.idIs schema id) r d = .ok (d', n))
    (hsame : SameBeside r places d' z) :
    Parallel r d z ∧ ∃ e' m, updated schema row (.idIs schema id) r z = .ok (e', m) ∧
      Between r d' e' z := by
  have hd' := intact_of_updated h hc hd hx
  obtain ⟨statement, hstatement, hexecuted⟩ := (updated_eq_ok_iff hne).1 hx
  obtain ⟨values, hvalues, hrows⟩ := bind_eq_ok.1 hstatement
  obtain ⟨rows, hkeys, hpure⟩ := bind_eq_ok.1 hrows
  obtain rfl := pure_eq_ok.1 hpure
  obtain rfl := Except.ok.inj (hkeys.symm.trans (Rendering.keys_idIs hk))
  obtain rfl := Statement.assignments_eq_ok hvalues
  obtain ⟨hverified, hexecute⟩ := executed_eq_ok_iff.1 hexecuted
  have hcolumns : ∀ column ∈ (row.map fun m => (columnName m.1, SqlValue.ofJson m.2)).map (·.1),
      (schema.tableName, some column) ∈ places → schema.Repeats column := by
    rw [columns_of_row]
    exact List.forall_mem_map.2 hplaces
  obtain ⟨hparallel, e', m, hupdate, hb⟩ :=
    Between.of_updateRows hc hs h hd hd' hz hexecute hsame hcolumns hfound
  exact ⟨hparallel, e', m, (updated_eq_ok_iff hne).2 ⟨_, hstatement, executed_eq_ok_iff.2
    ⟨verified_of_regular h hc hd.regular hz.regular hverified, hupdate⟩⟩, hb⟩

/-- **A row can be set again, and then its links**, where both have been written before. -/
theorem Sets.again_and_relinks {links : List (Association × List Json)}
    (hall : links.map (·.1.place) = places) (hsets : Sets r schema id row d mid)
    (hrelinks : Relinks id mid links z)
    (hlinks : ∀ x ∈ links, x.1.Rewritable r) (hn : (links.map (·.1.place)).Nodup) :
    Parallel r d z ∧ ∃ mid', Sets r schema id row z mid' ∧ Relinks id mid' links z := by
  have hmid : mid.Intact r := by
    rcases hsets with ⟨-, rfl⟩ | ⟨-, n, hupdated⟩
    · exact hd
    · exact intact_of_updated h hc hd hupdated
  have hsame := hrelinks.sameBeside h hc hlinks hmid
  rcases hsets with ⟨hempty, rfl⟩ | ⟨hne, n, hupdated⟩
  · have hb := Between.start hsame.parallel hz.regular hc
    exact ⟨hsame.parallel, z, .inl ⟨hempty, rfl⟩, hrelinks.again h hc hlinks hn hb hmid hz hz⟩
  · obtain ⟨hparallel, e', m, hagain, hb⟩ :=
      updated_again h hc hk hs hd hz hplaces hfound hne hupdated (hall ▸ hsame)
    exact ⟨hparallel, e', .inr ⟨hne, m, hagain⟩,
      hrelinks.again h hc hlinks hn hb hmid (intact_of_updated h hc hz hagain) hz⟩

end

end Session

end ResourceApi
