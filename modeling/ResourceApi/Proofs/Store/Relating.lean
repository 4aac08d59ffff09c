import ResourceApi.Proofs.Sql.Related
import ResourceApi.Proofs.Sql.Reordering
import ResourceApi.Proofs.Store.Selecting
import ResourceApi.Proofs.Store.Repeating
import ResourceApi.Proofs.Engine.Records

/-!
# Related rows after links are written

Links are written by two different programs, for keys and for join tables, and rows are related when
they are read by a rendered join condition (`Association.below`). Primary keys that an association
links are what the two sides share.

**Theorem (`Session.links_associate`).** Once links are written, the parent is related to the rows
with the identifiers and, where links are added, to those that it was related to. Other rows lose
those that have been taken from them. Nothing else changes, the same links can be written again to
no effect, and identifiers count once, in any order.

**Theorem (`Session.links_stay_related`).** A null among the identifiers keeps the links that should
be replaced. A key that is stored for another schema may be read as one of this schema that does not
find it. A list may be too long only because it repeats an identifier.
-/

namespace ResourceApi

variable {schemas : List Schema} {r : Registry} {a : Association} {db db' d d' : Database}
  {parent : Json} {ids ids' : List Json} {replace : Bool} {p q : SqlValue}

/-! ## Related rows -/

/-- The rows that are read below a row: those that the rendered join condition ties to it. -/
def Association.below (a : Association) (db : Database) (row : Tuple) : List Tuple :=
  match (Rendering.join a 1 0).run 2 with
  | .ok (condition, _) => db.joined [⟨0, a.source.tableName, row⟩] a.target.tableName 1 condition
  | .error _ => []

theorem Association.below_perm (a : Association) (db : Database) (row : Tuple) :
    (a.below db row).Perm (a.relatedRows db row) := by
  obtain ⟨condition, m, hjoin, -⟩ := Rendering.gives_join a 1 0 2
  unfold below
  rw [hjoin]
  exact Rendering.perm_joined hjoin (by decide) (by decide) (Frame.binds_push [] 0 _ row)

namespace Database

/-- The primary keys of the rows of a schema. -/
def primaryKeys (db : Database) (schema : Schema) : List SqlValue :=
  (db.rows schema.tableName).map (·.get schema.idColumn)

/-- Below the row of the source with the first primary key, the row of the target is read with the
second one. -/
def Relates (db : Database) (a : Association) (p q : SqlValue) : Prop :=
  ∃ row ∈ db.rows a.source.tableName, row.get a.source.idColumn = p ∧
    ∃ target ∈ a.below db row, target.get a.target.idColumn = q

/-- **Related are the rows whose primary keys are linked.** -/
theorem relates_iff (hr : a.StoresEnds r) (hc : r.Creatable) (hdb : db.Regular r)
    (hs : a.source ∈ r.schemas) (ht : a.target ∈ r.schemas) : db.Relates a p q ↔
      p ∈ db.primaryKeys a.source ∧ q ∈ db.primaryKeys a.target ∧ db.Links a p q := by
  constructor
  · rintro ⟨row, hrow, rfl, target, hbelow, rfl⟩
    obtain ⟨htarget, hties⟩ := List.mem_filter.1 ((a.below_perm db row).mem_iff.1 hbelow)
    exact ⟨List.mem_map_of_mem hrow, List.mem_map_of_mem htarget,
      (Association.ties_iff_links hr hc hdb hs ht hrow htarget).1 hties⟩
  · rintro ⟨hp, hq, hlinks⟩
    obtain ⟨row, hrow, rfl⟩ := List.mem_map.1 hp
    obtain ⟨target, htarget, rfl⟩ := List.mem_map.1 hq
    refine ⟨row, hrow, rfl, target, (a.below_perm db row).mem_iff.2 ?_, rfl⟩
    exact List.mem_filter.2 ⟨htarget,
      (Association.ties_iff_links hr hc hdb hs ht hrow htarget).2 hlinks⟩

theorem Parallel.primaryKeys (h : Parallel r db db') {schema : Schema} (hs : schema ∈ r.schemas) :
    db'.primaryKeys schema = db.primaryKeys schema := h.ids schema hs

end Database

/-! ## Shorter lists -/

/-- The second statement is like the first one, with no more values. -/
structure Statement.Shortens (first second : Statement) : Prop where
  params : second.params.length ≤ first.params.length
  depth : second.depth = first.depth
  lists : ∀ sql, second.checkLists sql = .ok ()
  order : second.checkOrder = first.checkOrder
  names : ∀ (db : Database) sql sql', db.check second sql' = db.check first sql

namespace Session

/-- Statements with fewer values are accepted as well. -/
theorem verified_of_shortens (h : Registry.assemble schemas = .ok r) (hc : r.Creatable)
    (hd : d.Regular r) {statements statements' : List Statement}
    (hs : List.Forall₂ Statement.Shortens statements statements')
    (hv : ∀ statement ∈ statements, verified d statement statement.sql = .ok ()) :
    ∀ statement ∈ statements', verified d statement statement.sql = .ok () := by
  induction hs with
  | nil => exact hv
  | @cons first second _ _ hfirst _ ih =>
    obtain ⟨hverified, hrest⟩ := List.forall_mem_cons.1 hv
    obtain ⟨hsize, hnames, horder, -⟩ := verified_eq_ok_iff.1 hverified
    obtain ⟨hparams, -, hdepth⟩ := Statement.checkSize_eq_ok_iff.1 hsize
    have hsize' : second.checkSize second.sql = .ok () :=
      Statement.checkSize_eq_ok_iff.2
        ⟨hfirst.params.trans hparams, hfirst.lists _, hfirst.depth ▸ hdepth⟩
    have htargets := d.checkTargets_eq_ok (Database.isAstray_eq_false h hc hd.sound.definitions)
    refine List.forall_mem_cons.2 ⟨verified_eq_ok_iff.2 ⟨hsize', ?_, ?_, htargets second⟩, ih hrest⟩
    · rw [hfirst.names d first.sql]
      exact hnames
    · rw [hfirst.order]
      exact horder

end Session

namespace Association

theorem shortens_ofLinks (hkind : ∀ key, a.kind ≠ .belongsTo key)
    (hempty : ids'.isEmpty = ids.isEmpty) (hlength : ids'.length ≤ ids.length) :
    List.Forall₂ Statement.Shortens (Statement.ofLinks a parent ids replace)
      (Statement.ofLinks a parent ids' replace) := by
  rcases hasKey_or_through hkind with ⟨key, hk⟩ | ⟨join, hk⟩
  · rw [ofLinks_of_hasKey hk, ofLinks_of_hasKey hk, hempty]
    apply List.rel_append
    · cases replace with
      | false => exact .nil
      | true =>
        refine .cons ⟨?_, ?_, fun _ => rfl, rfl, fun _ _ _ => rfl⟩ .nil
        · cases ids.isEmpty <;> simp [Statement.params, Guard.params, hlength]
        · cases ids.isEmpty <;> rfl
    · cases ids.isEmpty with
      | true => exact .nil
      | false =>
        refine .cons ⟨?_, rfl, fun _ => rfl, rfl, fun _ _ _ => rfl⟩ .nil
        simpa [Statement.params, Guard.params] using hlength
  · rw [ofLinks_of_through hk, ofLinks_of_through hk, hempty]
    apply List.rel_append
    · cases replace with
      | false => exact .nil
      | true => exact .cons ⟨le_rfl, rfl, fun _ => rfl, rfl, fun _ _ _ => rfl⟩ .nil
    · cases ids.isEmpty with
      | true => exact .nil
      | false =>
        refine .cons ⟨?_, rfl, fun _ => rfl, rfl, fun _ _ _ => rfl⟩ .nil
        simp only [Statement.params, List.length_flatMap, List.length_cons, List.length_nil,
          List.map_const', List.length_map, List.sum_replicate_nat]
        omega

end Association

/-! ## Sessions -/

namespace Session

variable {s : Session}

theorem does_link_iff : s.Does (link a parent ids replace) () db ↔
    Performs s.database (Statement.ofLinks a parent ids replace) db := by
  constructor
  · rintro ⟨ha, rfl⟩
    exact performs_of_link (Prod.ext ha rfl)
  · intro h
    obtain ⟨s', hrun, rfl⟩ := exists_run_link h
    exact ⟨congrArg Prod.fst hrun, congrArg (·.2.database) hrun⟩

/-- What has become of the related rows, and of everything else, once links have been written for
some identifiers. -/
structure Associates (s : Session) (a : Association) (parent : Json) (ids : List Json)
    (replace : Bool) (db : Database) : Prop where
  /-- The parent is related to the rows with the identifiers and, where links are added, to those
  that it was related to. -/
  own : (replace = true → a.Clears ids) → ∀ p ∈ s.database.primaryKeys a.source,
    a.source.isKey parent p = true → ∀ q, db.Relates a p q ↔
      q ∈ s.database.primaryKeys a.target ∧ a.target.isAmong ids q = true ∨
        replace = false ∧ s.database.Relates a p q
  /-- Where links are keys, the rows with the identifiers are taken from other rows. -/
  others : ∀ p, a.source.isKey parent p = false → ∀ q, db.Relates a p q ↔
    s.database.Relates a p q ∧ ((∃ key, a.HasKey key) → a.target.isAmong ids q = false)
  /-- Nothing else changes. -/
  beside : Database.SameBeside s.registry [a.place] s.database db
  /-- The same links can be written again, and then nothing changes. -/
  again : ∀ s' : Session, s'.database = db → s'.Does (link a parent ids replace) () db
  /-- Links for the same identifiers in another order, or more often, are the same. -/
  alike : ∀ ids', (∀ id, id ∈ ids' ↔ id ∈ ids) →
    ∀ db', s.Does (link a parent ids' replace) () db' →
      Database.SameLinks a db db' ∧ ∀ p q, db'.Relates a p q ↔ db.Relates a p q
  /-- They can be written, unless the list is longer. -/
  shorter : ∀ ids', (∀ id, id ∈ ids' ↔ id ∈ ids) → ids'.length ≤ ids.length →
    ∃ db', s.Does (link a parent ids' replace) () db'

section

variable (h : Registry.assemble schemas = .ok r) (hc : r.Creatable) (ha : a ∈ r.associations)
  (hkind : ∀ key, a.kind ≠ .belongsTo key) (hr : a.StoresEnds r) (hd : d.Intact r)
  (hx : Performs d (Statement.ofLinks a parent ids replace) d')
include h hc ha hkind hr hd hx

/-- What a parent, or another row, is related to afterwards. -/
theorem relates_iff_of_performs : d'.Relates a p q ↔
    p ∈ d.primaryKeys a.source ∧ q ∈ d.primaryKeys a.target ∧
      (a.source.isKey parent p = true ∧ a.target.isAmong ids q = true ∨
        d.Links a p q ∧ (replace = true → a.Clears ids → a.source.isKey parent p = false) ∧
          ((∃ key, a.HasKey key) → a.source.isKey parent p = false →
            a.target.isAmong ids q = false)) := by
  have hcoherent := Registry.coherent_of_assemble h
  have hs := hcoherent.source a ha
  have ht := hcoherent.target a ha
  have hd' := hd.executes (Registry.tablesLinked h hc) hx.executes (List.Subset.refl _)
  have hparallel := (Association.sameBeside_of_executes h hc hd ha hkind hr hx.executes).parallel
  rw [Database.relates_iff hr hc hd'.regular hs ht, hparallel.primaryKeys hs,
    hparallel.primaryKeys ht]
  refine and_congr_right fun _ => and_congr_right fun hq => ?_
  obtain ⟨row, hrow, rfl⟩ := List.mem_map.1 hq
  exact Association.links_iff_of_executes h hc ha hr hd hkind hx.executes hrow

end

/-- **What has become of the related rows.** -/
theorem associates_of_does (h : Registry.assemble schemas = .ok r)
    (hn : (r.tables.map (·.name)).Nodup) (hs : Reachable r s) (ha : a ∈ r.associations)
    (hkind : ∀ key, a.kind ≠ .belongsTo key) (hr : a.StoresEnds r)
    (hdoes : s.Does (link a parent ids replace) () db) : s.Associates a parent ids replace db := by
  obtain ⟨hc, hregular⟩ := regular_of_reachable h hn hs
  have hregistry := (sound_of_reachable h hn hs).2.registry
  have hcoherent := Registry.coherent_of_assemble h
  have hsource := hcoherent.source a ha
  have htarget := hcoherent.target a ha
  have hl := Registry.tablesLinked h hc
  have hd : s.database.Intact r := ⟨hregular.database, enumerated_of_reachable h hn hs⟩
  have hperforms := does_link_iff.1 hdoes
  have hdb := hd.executes hl hperforms.executes (List.Subset.refl _)
  have hverified := hperforms.verified h hc (List.Subset.refl _) hd.regular
  constructor
  case own =>
    intro hclears p hp hparent q
    rw [relates_iff_of_performs h hc ha hkind hr hd hperforms,
      Database.relates_iff hr hc hd.regular hsource htarget]
    cases replace with
    | true => simp [hp, hparent, hclears rfl]
    | false => simp [hp, hparent, and_or_left]
  case others =>
    intro p hother q
    rw [relates_iff_of_performs h hc ha hkind hr hd hperforms,
      Database.relates_iff hr hc hd.regular hsource htarget]
    simp [hother, and_assoc]
  case beside =>
    rw [hregistry]
    exact Association.sameBeside_of_executes h hc hd ha hkind hr hperforms.executes
  case again =>
    rintro s' rfl
    apply does_link_iff.2
    refine performs_of_executes h hc (List.Subset.refl _)
      (Association.executes_again h hc hd ha hkind hr hperforms.executes) hdb.regular ?_
    intro statement hm
    exact verified_of_regular h hc hd.regular hdb.regular (hverified statement hm)
  case alike =>
    intro ids' hsame db' hdoes'
    have hperforms' := does_link_iff.1 hdoes'
    have hdb' := hd.executes hl hperforms'.executes (List.Subset.refl _)
    obtain ⟨e, hexecutes, hlinks⟩ :=
      Association.exists_executes_of_same h hc ha hr hd hkind hsame hperforms.executes
    obtain rfl := hexecutes.unique hperforms'.executes
    have hamong (q : SqlValue) : a.target.isAmong ids' q = a.target.isAmong ids q :=
      any_eq_of_same hsame _
    have hclears : a.Clears ids' ↔ a.Clears ids :=
      forall₂_congr fun key hk => not_congr (hsame .null)
    refine ⟨hlinks, fun p q => ?_⟩
    rw [relates_iff_of_performs h hc ha hkind hr hd hperforms', hamong, hclears,
      relates_iff_of_performs h hc ha hkind hr hd hperforms]
  case shorter =>
    intro ids' hsame hlength
    obtain ⟨e, hexecutes, -⟩ :=
      Association.exists_executes_of_same h hc ha hr hd hkind hsame hperforms.executes
    have hshortens : List.Forall₂ Statement.Shortens (Statement.ofLinks a parent ids replace)
        (Statement.ofLinks a parent ids' replace) :=
      Association.shortens_ofLinks hkind (Association.isEmpty_eq_of_same hsame) hlength
    have hverified' := verified_of_shortens h hc hd.regular hshortens hverified
    exact ⟨e, does_link_iff.2
      (performs_of_executes h hc (List.Subset.refl _) hexecutes hd.regular hverified')⟩

/-- **Links are related rows.** Where links are replaced, the parent is related to the rows with the
identifiers afterwards, and where they are added, also to those that it was related to. Either
operation can be repeated to no effect, and identifiers count once, in any order. -/
theorem links_associate (h : Registry.assemble schemas = .ok r)
    (hn : (r.tables.map (·.name)).Nodup) (hs : Reachable r s) (ha : a ∈ r.associations)
    (hkind : ∀ key, a.kind ≠ .belongsTo key) (hr : a.StoresEnds r) (parent : Json)
    (ids : List Json) :
    (∀ db, s.Does (perform (.setLinks a parent ids)) () db → s.Associates a parent ids true db) ∧
      ∀ db, s.Does (perform (.addLinks a parent ids)) () db → s.Associates a parent ids false db :=
  ⟨fun _ => associates_of_does h hn hs ha hkind hr, fun _ => associates_of_does h hn hs ha hkind hr⟩

/-- A session with a team of one person, and with another person. -/
def teamed : Session :=
  (run (fun _ => "") (do
    let _ ← Action.perform .store (.create team [])
    let _ ← Action.perform .store (.bulkCreate person [[], []])
    Action.perform .store (.setLinks teamMembers (.int 1) [.int 1]) : Action Unit).run
    staff.unused).2

theorem reachable_teamed : Reachable staff teamed :=
  .run _ _ (.start (Registry.start_unused (by decide +kernel)))

/-- The second person takes the place of the first one in the team. -/
theorem second_replaces_first : Registry.assemble [team, person] = .ok staff ∧
    (staff.tables.map (·.name)).Nodup ∧ Reachable staff teamed ∧
    teamMembers ∈ staff.associations ∧ (∀ key, teamMembers.kind ≠ .belongsTo key) ∧
    teamMembers.StoresEnds staff ∧
    ∃ db, teamed.Does (perform (.setLinks teamMembers (.int 1) [.int 2])) () db ∧
      teamed.Associates teamMembers (.int 1) [.int 2] true db ∧
      teamMembers.Clears [.int 2] ∧ teamed.database.Relates teamMembers (.integer 1) (.integer 1) ∧
      ∀ q, db.Relates teamMembers (.integer 1) q ↔ q = .integer 2 := by
  have h : Registry.assemble [team, person] = .ok staff := by decide +kernel
  have hn : (staff.tables.map (·.name)).Nodup := by decide +kernel
  have ha : teamMembers ∈ staff.associations := by decide +kernel
  have hrefers : staff.Refers person.tableName (columnName "teamId") team :=
    Registry.refers_of_foreignKey (by decide +kernel) (k := ⟨"Person", "teamId", team⟩)
      (by decide +kernel)
  have hr : teamMembers.StoresEnds staff := hrefers.storesKeysOf
  have hdoes : teamed.Does (perform (.setLinks teamMembers (.int 1) [.int 2])) ()
      ((perform (.setLinks teamMembers (.int 1) [.int 2])).run teamed).2.database :=
    ⟨by decide +kernel, rfl⟩
  have hassociates :=
    (links_associate h hn reachable_teamed ha nofun hr (.int 1) [.int 2]).1 _ hdoes
  have hclears : teamMembers.Clears [.int 2] := fun _ _ => by decide
  refine ⟨h, hn, reachable_teamed, ha, nofun, hr, _, hdoes, hassociates, hclears, ?_, fun q => ?_⟩
  · unfold Database.Relates
    decide +kernel
  · have hkeys : teamed.database.primaryKeys person = [.integer 1, .integer 2] := by decide +kernel
    rw [hassociates.own (fun _ => hclears) (.integer 1) (by decide +kernel) (by decide +kernel)]
    show q ∈ teamed.database.primaryKeys person ∧ _ ∨ _ ↔ _
    rw [hkeys]
    constructor
    · rintro (⟨hq, hamong⟩ | ⟨hadded, -⟩)
      · rcases List.mem_cons.1 hq with rfl | hq
        · exact absurd hamong (by decide +kernel)
        · exact List.mem_singleton.1 hq
      · cases hadded
    · rintro rfl
      exact .inl ⟨by decide, by decide +kernel⟩

/-- Labels of items, by names. -/
def label : Schema where
  name := "Label"
  relationships := [("items", .hasMany "Item" (some "ownerId"))]

/-- Boxes of items, by numbers. -/
def box : Schema where
  name := "Box"
  idType := .integer
  relationships := [("items", .hasMany "Item" (some "ownerId"))]

/-- Items, which have one owner. -/
def ownedItem : Schema where
  name := "Item"
  idType := .integer

/-- The items of a label. -/
def labelItems : Association := ⟨"items", label, ownedItem, .hasMany "ownerId"⟩

/-- The items in a box. -/
def boxItems : Association := ⟨"items", box, ownedItem, .hasMany "ownerId"⟩

/-- Labels and boxes share a key, which is stored for labels. -/
def owners : Registry where
  schemas := [label, box, ownedItem]
  associations := [labelItems, boxItems]
  foreignKeys := [⟨"Item", "ownerId", label⟩]

/-- A session with a label, whose name is a number, and with its item. -/
def labelledItem : Session :=
  (run (fun _ => "") (do
    let _ ← Action.perform .store (.create label [("id", .str "01")])
    let _ ← Action.perform .store (.create box [])
    let _ ← Action.perform .store (.create ownedItem [])
    Action.perform .store (.addLinks labelItems (.str "01") [.int 1]) : Action Unit).run
    owners.unused).2

/-- A list that repeats an identifier until it is too long. -/
def repeated : List Json := List.replicate Statement.maxValues (.int 1)

/-- **What has become of related rows may be something else.** A null among the identifiers keeps
the links that should be replaced. The item of a label is read as one of a box, and as it has the
name of the label for a key, it is not taken out of the box. A list may be too long only because it
repeats an identifier. -/
theorem links_stay_related : (Reachable staff teamed ∧
      (∃ db, teamed.Does (perform (.setLinks teamMembers (.int 1) [.int 2, .null])) () db ∧
        teamMembers.target.isAmong [.int 2, .null] (.integer 1) = false ∧
        db.Relates teamMembers (.integer 1) (.integer 1)) ∧
      (∃ db, teamed.Does (perform (.addLinks teamMembers (.int 1) [.int 1])) () db) ∧
      (∀ id, id ∈ repeated ↔ id ∈ [Json.int 1]) ∧
      ∀ db, ¬teamed.Does (perform (.addLinks teamMembers (.int 1) repeated)) () db) ∧
    Registry.assemble [label, box, ownedItem] = .ok owners ∧ Reachable owners labelledItem ∧
      ∃ db, labelledItem.Does (perform (.setLinks boxItems (.int 1) [])) () db ∧
        db.Relates boxItems (.integer 1) (.integer 1) := by
  refine ⟨⟨reachable_teamed, ⟨_, ⟨?_, rfl⟩, ?_, ?_⟩, ⟨_, ?_, rfl⟩, fun id => ?_,
    fun db hdoes => ?_⟩, ?_, .run _ _ (.start (Registry.start_unused ?_)), _, ⟨?_, rfl⟩, ?_⟩
  case refine_5 =>
    unfold repeated
    rw [List.mem_replicate, List.mem_singleton]
    exact and_iff_right (by decide)
  case refine_6 =>
    cases does_link_iff.1 hdoes with
    | cons hexecuted _ =>
      have hsize := (verified_eq_ok_iff.1 (executed_eq_ok_iff.1 hexecuted).1).1
      have hvalues := (Statement.checkSize_eq_ok_iff.1 hsize).1
      simp [Statement.params, Guard.params, repeated] at hvalues
  all_goals
    try unfold Database.Relates
    decide +kernel

end Session

end ResourceApi
