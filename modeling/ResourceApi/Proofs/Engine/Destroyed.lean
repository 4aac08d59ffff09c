import ResourceApi.Proofs.Engine.Addressing
import ResourceApi.Proofs.Engine.Repeated
import ResourceApi.Proofs.Sql.Deletion

/-!
# Rows that are destroyed

**Theorem (`Engine.destroy_exact`).** To destroy a row succeeds exactly where there is a row with
the identifier. Then the row is lost, with the rows of join tables that link it, and the derived
keys that held its primary key are null; everything else stays as it is (`Database.Loses`), and no
association links the row any more. Otherwise the row is not found, and nothing changes. The name of
the primary key must have no dots (`Engine.destroy_dottedNote`).

No check refuses the statement, and a deletion cannot break a constraint: derived keys may be null.
-/

namespace ResourceApi

variable {schemas : List Schema} {r : Registry} {db : Database} {schema : Schema} {id : Json}

/-- A deletion of an addressed row is small. -/
theorem Statement.checkSize_delete (schema : Schema) (id : Json) (sql : String) :
    (delete (.idIs schema id)).checkSize sql = .ok () := by
  have hvalues : (delete (.idIs schema id)).params.length ≤ maxValues :=
    (KeyQuery.fits_idIs schema id).values
  have hdepth : (delete (.idIs schema id)).depth ≤ Depth.maximum := by
    cases id <;> exact Nat.le_of_ble_eq_true rfl
  unfold checkSize checkLists
  rw [if_neg (Nat.not_lt.2 hvalues), if_neg (Nat.not_lt.2 hdepth)]
  rfl

namespace Session

open Database

section

variable (h : Registry.assemble schemas = .ok r) (hc : r.Creatable) (hdb : db.Regular r)
  (hs : schema ∈ r.schemas) (hk : schema.Addressable)
include h hc hdb hs hk

/-- **A deletion of an addressed row succeeds.** -/
theorem destroyed_idIs (id : Json) : destroyed schema (.idIs schema id) r db =
    .ok ((db.deleteRows schema.tableName (db.hasId schema id)).1,
      (db.deleteRows schema.tableName (db.hasId schema id)).2) := by
  have hstatement : Statement.ofDelete r schema (.idIs schema id) =
      .ok (.delete (.idIs schema id)) :=
    bind_eq_ok.2 ⟨_, Rendering.keys_idIs hk, rfl⟩
  have hverified : verified db (.delete (.idIs schema id))
      (Statement.delete (.idIs schema id)).sql = .ok () := by
    refine verified_eq_ok (Statement.checkSize_delete schema id _) ?_ rfl ?_
    · exact checkNames_eq_ok (finds_idIs hc hdb.sound hs) _
    · exact db.checkTargets_eq_ok (isAstray_eq_false h hc hdb.sound.definitions) _
  have hrows : db.deleteRows schema.tableName (db.hasKeyOf (.idIs schema id)) =
      db.deleteRows schema.tableName (db.hasId schema id) :=
    deleteRows_congr (nodup_names hdb.sound.definitions hc)
      fun row hrow => hdb.hasKeyOf_idIs hc hs hrow
  refine bind_eq_ok.2 ⟨_, mapError_eq_ok.2 hstatement, executed_eq_ok_iff.2 ⟨hverified, ?_⟩⟩
  exact congrArg Except.ok hrows

end

end Session

namespace Database

variable {row : Tuple}

/-- One row has the identifier, at most. -/
theorem Regular.hasId_iff (hdb : db.Regular r) (hc : r.Creatable) (hs : schema ∈ r.schemas)
    {gone : Tuple} (hgone : gone ∈ db.rows schema.tableName) (hid : db.hasId schema id gone = true)
    (hrow : row ∈ db.rows schema.tableName) : db.hasId schema id row = decide (row = gone) := by
  rw [Bool.eq_iff_iff, decide_eq_true_eq]
  constructor
  · exact fun h => hdb.eq_of_get hc hs hrow hgone (hdb.get_idColumn_eq hc hs hdb hgone hrow hid h)
  · rintro rfl
    exact hid

/-- A deletion of no rows changes nothing. -/
theorem deleteRows_of_none {table : String} {picked : Tuple → Bool}
    (hn : (db.tables.map Table.name).Nodup) (h : ∀ row ∈ db.rows table, picked row = false) :
    db.deleteRows table picked = (db, 0) := by
  have hstays (t : Table) : db.survivors table (fun _ => false) t = t.rows := by
    have hnone : (db.rows table).filter (fun _ => false) = [] := List.filter_eq_nil_iff.2 (by simp)
    unfold survivors
    rw [hnone, funext fun row => db.release_nil table t row, List.filterMap_some]
    simp
  have htables : (db.deleteRows table fun _ => false).1.tables = db.tables := by
    rw [tables_deleteRows]
    refine (List.map_congr_left fun t _ => ?_).trans (List.map_id _)
    rw [hstays]
    rfl
  rw [deleteRows_congr hn h]
  exact Prod.ext (congrArg Database.mk htables) (by simp [deleteRows])

end Database

namespace Engine

open Session

variable {s s' : Session} {scope : Scope} {supply : Nat → String}

/-- To destroy a row is to delete it and to look at how many rows that were. -/
theorem run_destroy {n : Nat} (hserves : s.Serves scope)
    (hx : destroyed schema (.idIs schema id) s.registry s.database = .ok (db, n))
    (supply : Nat → String) :
    ∃ s', Session.run supply (destroy scope schema id).run s =
        (.ok (if n = 0 then .error (notFound schema id) else .ok ()), s') ∧
      s'.registry = s.registry ∧ s'.saved = s.saved ∧ s'.database = db := by
  have hdestroys := changes_destroy schema (.idIs schema id)
  obtain ⟨s', hrun, hdatabase⟩ := hdestroys.exists_run hx
  have hframed := hdestroys.1 s
  rw [hrun] at hframed
  refine ⟨s', ?_, hframed.1, hframed.2, hdatabase⟩
  have hperform : (Session.perform (.destroy schema (.idIs schema id))).run s = (.ok n, s') := hrun
  unfold destroy
  rw [run_perform_bind hserves, hperform]
  dsimp only
  split <;> rfl

/-- **A row is destroyed exactly**, or it is not found. -/
theorem destroy_exact (h : Registry.assemble schemas = .ok r) (hn : (r.tables.map (·.name)).Nodup)
    (hreachable : Session.Reachable r s) (hserves : s.Serves scope) (hs : schema ∈ r.schemas)
    (hk : schema.Addressable) (id : Json) (supply : Nat → String) :
    ∃ result s', Session.run supply (destroy scope schema id).run s = (.ok result, s') ∧
      s'.registry = s.registry ∧ s'.saved = s.saved ∧
      (∀ gone ∈ s.database.rows schema.tableName, s.database.hasId schema id gone = true →
        result = .ok () ∧ s.database.Loses r schema (· = gone) s'.database ∧
          s'.database.Unlinked r schema (gone.get schema.idColumn)) ∧
      ((∀ row ∈ s.database.rows schema.tableName, s.database.hasId schema id row = false) →
        result = .error (notFound schema id) ∧ s'.database = s.database) := by
  obtain ⟨hc, hholds⟩ := Session.regular_of_reachable h hn hreachable
  have hdb := hholds.database
  have hnames := Database.nodup_names hdb.sound.definitions hc
  have hdestroyed := destroyed_idIs h hc hdb hs hk id
  rw [← (sound_of_reachable h hn hreachable).2.registry] at hdestroyed
  obtain ⟨s', hrun, hregistry, hsaved, hdatabase⟩ := run_destroy hserves hdestroyed supply
  refine ⟨_, s', hrun, hregistry, hsaved, fun gone hgone hid => ?_, fun hnone => ?_⟩
  · have hpicked : ∀ row ∈ s.database.rows schema.tableName,
        s.database.hasId schema id row = decide (row = gone) :=
      fun row hrow => hdb.hasId_iff hc hs hgone hid hrow
    have hcount : (s.database.deleteRows schema.tableName (s.database.hasId schema id)).2 ≠ 0 :=
      (List.length_pos_of_mem (List.mem_filter.2 ⟨hgone, hid⟩)).ne'
    have hsame := Database.deleteRows_congr hnames hpicked
    have hloses : s.database.Loses r schema (· = gone) s'.database := by
      rw [hdatabase, hsame]
      exact Database.loses_deleteRows hc hdb hs h _
    have hafter : s'.database.Regular r := by
      rw [hdatabase]
      exact ⟨Database.sound_deleteRows (Registry.tablesLinked h hc) hdb.sound,
        hdb.proper.deleteRows _ _⟩
    exact ⟨if_neg hcount, hloses,
      hloses.unlinked hc hdb hs h hafter hgone (decide_eq_true rfl)⟩
  · rw [hdatabase, Database.deleteRows_of_none hnames hnone]
    exact ⟨if_pos rfl, rfl⟩

open Service in
/-- When a pupil is destroyed that has a junior beside itself and takes both lessons, these stay,
and the junior is nobody's. -/
theorem destroy_pupil : Registry.assemble [pupil, lesson] = .ok school ∧
    (school.tables.map (·.name)).Nodup ∧ Session.Reachable school afterSchooling ∧
    afterSchooling.Serves .store ∧ pupil.Addressable ∧
    (∀ a ∈ school.associations, a.RefersToEnds school) ∧
    ∃ gone ∈ afterSchooling.database.rows "pupil",
      afterSchooling.database.hasId pupil (.int 1) gone = true ∧
      ∃ s', Session.run (fun _ => "") (destroy .store pupil (.int 1)).run afterSchooling =
          (.ok (.ok ()), s') ∧
        afterSchooling.database.Loses school pupil (· = gone) s'.database ∧
        s'.database.Unlinked school pupil (.integer 1) ∧
        s'.database.rows "pupil" = [[("id", .integer 2), ("name", .text "b"), ("mentor_id", .null),
          ("pupil_id", .null)]] ∧
        s'.database.rows "lesson" = [[("id", .integer 1)], [("id", .integer 2)]] ∧
        s'.database.rows "pupil_lessons" = [] := by
  have h : Registry.assemble [pupil, lesson] = .ok school := by decide +kernel
  have hn : (school.tables.map (·.name)).Nodup := by decide +kernel
  have hreachable : Session.Reachable school afterSchooling :=
    (Registry.reachable_holding (by decide +kernel) _).run _ _
  have hserves : afterSchooling.Serves .store := fun _ => by decide +kernel
  have hrefers : ∀ a ∈ school.associations, a.RefersToEnds school := by
    have hj : (⟨"lessons", pupil, lesson,
        .hasManyThrough ⟨"PupilLessons", "pupil_lessons", "pupilId", "lessonId"⟩⟩,
        ⟨"PupilLessons", "pupil_lessons", "pupilId", "lessonId"⟩) ∈ school.joinAssociations := by
      decide +kernel
    have hlessons := Registry.refers_of_joinTable hj
    refine List.forall_mem_cons.2 ⟨?_, List.forall_mem_cons.2 ⟨?_,
      List.forall_mem_singleton.2 ⟨hlessons.1, hlessons.2, by decide⟩⟩⟩
    · exact Registry.refers_of_foreignKey (k := ⟨"Pupil", "mentorId", pupil⟩) (by decide)
        (by decide)
    · exact Registry.refers_of_foreignKey (k := ⟨"Pupil", "pupilId", pupil⟩) (by decide)
        (by decide)
  have hgone : [("id", .integer 1), ("name", .text "c"), ("mentor_id", .integer 2),
      ("pupil_id", .integer 1)] ∈ afterSchooling.database.rows "pupil" := by decide +kernel
  have hid : afterSchooling.database.hasId pupil (.int 1) [("id", .integer 1), ("name", .text "c"),
      ("mentor_id", .integer 2), ("pupil_id", .integer 1)] = true := by decide +kernel
  obtain ⟨result, s', hrun, -, -, hdestroys, -⟩ :=
    destroy_exact h hn hreachable hserves List.mem_cons_self (by decide) (.int 1) (fun _ => "")
  obtain ⟨rfl, hloses, hunlinked⟩ := hdestroys _ hgone hid
  refine ⟨h, hn, hreachable, hserves, by decide, hrefers, _, hgone, hid, s', hrun, hloses,
    hunlinked, ?_⟩
  obtain rfl := congrArg Prod.snd hrun
  decide +kernel

/-- **A key with a dot in its name destroys no row.** A note that is there is not destroyed: the
name of its key is read as a path of relationships. -/
theorem destroy_dottedNote : Registry.assemble [dottedNote] = .ok dottedNotes ∧
    (dottedNotes.tables.map (·.name)).Nodup ∧ dottedNotes.associations = [] ∧
    ∃ s : Session, Session.Reachable dottedNotes s ∧ s.saved = none ∧
      (s.database.rows "note").map (s.database.hasId dottedNote (.int 1)) = [true] ∧
      (Session.run (fun _ => "") (destroy .store dottedNote (.int 1)).run s).1 =
        .ok (.error (.ofInternal "unable to execute plan: 'Note' has no relationship 'a'")) := by
  refine ⟨assemble_dottedNote, by decide +kernel, rfl,
    dottedNotes.holding [(dottedNote, ⟨"Note", none, [("text", .str "w")], []⟩)],
    Registry.reachable_holding (by decide +kernel) _, ?_⟩
  decide +kernel

end Engine

end ResourceApi
