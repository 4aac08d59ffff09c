import ResourceApi.Proofs.Schema.Fitting
import ResourceApi.Proofs.Sql.Creation
import ResourceApi.Proofs.Sql.Lookup

/-!
# Join tables

Associations can share a join table: both directions of one link do, and so do associations whose
join tables happen to have the same name. The table is created once.

**Theorem (`Registry.first_association_makes_table`).** It has the columns of the *first*
association that is stored in it, in order of registration and declaration. An association that
comes later finds its own columns there exactly if it names the same keys for the same ends, in the
same direction or in the other one.

Join tables are collected in one pass over the associations (`Registry.addJoinTable`). Its invariant
is that of all the associations seen so far that are stored in a table, the first one is found.
-/

namespace ResourceApi

/-- Whether the association is stored in a join table of this name. -/
def Association.isStoredIn (table : String) (a : Association) : Bool :=
  a.join?.any (·.table = table)

theorem Association.join?_eq_some {a : Association} {join : JoinTable} :
    a.join? = some join ↔ a.kind = .hasManyThrough join := by
  unfold join?
  cases a.kind <;> simp

/-- The join table of an association that is stored in a table of this name. -/
theorem Association.exists_of_isStoredIn {a : Association} {table : String}
    (h : a.isStoredIn table = true) : ∃ join, a.join? = some join ∧ join.table = table := by
  obtain ⟨join, hj, htable⟩ := (Option.any_eq_true _ _).1 h
  exact ⟨join, hj, of_decide_eq_true htable⟩

namespace Registry

variable {schemas : List Schema} {r : Registry} {a : Association} {join : JoinTable}

/-! ## Collecting join tables -/

/-- Adds the join table of an association, unless there is one of its name. -/
def addJoinTable (found : List (Association × JoinTable)) (a : Association) :
    List (Association × JoinTable) :=
  match a.join? with
  | some join => if found.any (·.2.table = join.table) then found else found ++ [(a, join)]
  | none => found

theorem joinAssociations_eq_foldl (r : Registry) :
    r.joinAssociations = (r.schemas.flatMap r.associationsOf).foldl addJoinTable [] := rfl

/-- Of the associations that are stored in a table, the first one is found. -/
def FirstFound (done : List Association) (found : List (Association × JoinTable)) : Prop :=
  ∀ table, found.filter (·.2.table = table) =
    (done.find? (·.isStoredIn table)).toList.filterMap fun a => a.join?.map (a, ·)

theorem FirstFound.eq_nil_iff {done : List Association} {found : List (Association × JoinTable)}
    (h : FirstFound done found) (table : String) :
    found.filter (·.2.table = table) = [] ↔ done.find? (·.isStoredIn table) = none := by
  rw [h table]
  cases hd : done.find? (·.isStoredIn table) with
  | none => simp
  | some first =>
    have hstored : first.isStoredIn table = true := List.find?_some hd
    obtain ⟨join, hj, -⟩ := Association.exists_of_isStoredIn hstored
    simp [hj]

theorem firstFound_addJoinTable {done : List Association} {found : List (Association × JoinTable)}
    (h : FirstFound done found) (a : Association) :
    FirstFound (done ++ [a]) (addJoinTable found a) := by
  intro table
  have hsingle : [a].find? (·.isStoredIn table) =
      if a.isStoredIn table = true then some a else none := by
    rw [List.find?_singleton]
  rw [List.find?_append, hsingle]
  unfold addJoinTable
  cases hj : a.join? with
  | none => simp [Association.isStoredIn, hj, h table]
  | some join =>
    have hstored : a.isStoredIn table = true ↔ join.table = table := by
      simp [Association.isStoredIn, hj]
    have hany : found.any (·.2.table = join.table) = true ↔
        found.filter (·.2.table = join.table) ≠ [] := by
      simp [List.filter_eq_nil_iff]
    dsimp only
    by_cases ht : join.table = table
    · subst ht
      rw [if_pos (hstored.2 rfl)]
      by_cases hf : found.filter (·.2.table = join.table) = []
      · rw [if_neg (by simpa using mt hany.1 (not_not.2 hf)), (h.eq_nil_iff _).1 hf,
          List.filter_append, hf]
        simp [hj]
      · obtain ⟨first, hfirst⟩ := Option.ne_none_iff_exists'.1 (mt (h.eq_nil_iff _).2 hf)
        rw [if_pos (hany.2 hf), h join.table, hfirst, Option.some_or]
    · rw [if_neg (mt hstored.1 ht), Option.or_none, ← h table]
      split
      · rfl
      · simp [List.filter_append, ht]

theorem firstFound_foldl {done : List Association} {found : List (Association × JoinTable)}
    (h : FirstFound done found) (associations : List Association) :
    FirstFound (done ++ associations) (associations.foldl addJoinTable found) := by
  induction associations generalizing done found with
  | nil => simpa using h
  | cons a rest ih => simpa using ih (firstFound_addJoinTable h a)

/-! ## Join tables of assembled registries -/

/-- The associations of the schemas, one schema after the other, are all associations in their
order. -/
theorem flatMap_associationsOf (h : assemble schemas = .ok r) :
    r.schemas.flatMap r.associationsOf = r.associations := by
  obtain ⟨hfull, -, associations, hassoc, rfl⟩ := assemble_eq_ok h
  obtain ⟨lists, hlists, rfl⟩ := flatMapM_eq_ok hassoc
  have hsources : List.Forall₂ (fun (s : Schema) (list : List Association) =>
      ∀ a ∈ list, a.source.fullName = s.fullName) schemas lists := by
    refine hlists.imp fun s list hlist a ha => ?_
    obtain ⟨x, -, hx⟩ := exists_of_mapM_eq_ok hlist ha
    rw [(resolve_eq_ok hx).2.1]
  exact congrArg List.flatten (map_filter_flatten hsources hfull)

/-- The join tables of a name: one, of the first association that is stored there. -/
theorem exists_first_of_isStoredIn (h : assemble schemas = .ok r) (ha : a ∈ r.associations)
    {table : String} (hs : a.isStoredIn table = true) :
    ∃ first made, r.associations.find? (·.isStoredIn table) = some first ∧
      first.kind = .hasManyThrough made ∧ made.table = table ∧
      r.joinAssociations.filter (·.2.table = table) = [(first, made)] := by
  have hempty : FirstFound [] [] := fun _ => rfl
  have hfirst := firstFound_foldl hempty (r.schemas.flatMap r.associationsOf)
  rw [← joinAssociations_eq_foldl, List.nil_append, flatMap_associationsOf h] at hfirst
  cases hfind : r.associations.find? (·.isStoredIn table) with
  | none => exact absurd hs (List.find?_eq_none.1 hfind a ha)
  | some first =>
    have hstored : first.isStoredIn table = true := List.find?_some hfind
    obtain ⟨made, hmade, htable⟩ := Association.exists_of_isStoredIn hstored
    refine ⟨first, made, rfl, Association.join?_eq_some.1 hmade, htable, ?_⟩
    rw [hfirst table, hfind]
    simp [hmade]

end Registry

/-! ## Created tables -/

namespace Database

variable {db db' : Database}

theorem table?_create {d : TableDefinition} (h : db.create d = .ok db') (name : String) :
    db'.table? name =
      (db.table? name).or (if d.name = name then some { definition := d } else none) := by
  unfold create at h
  dsimp only at h
  split at h
  · cases h
  obtain rfl := Except.ok.inj h
  split
  · rw [table?, List.find?_append, ← table?, List.find?_singleton]
    by_cases hn : d.name = name <;> simp [Table.name, hn]
  · rename_i hold
    split
    · rename_i hn
      subst hn
      obtain ⟨t, ht⟩ := Option.ne_none_iff_exists'.1 (by simpa using hold)
      rw [ht, Option.some_or]
    · rw [Option.or_none]

/-- Of several definitions of one name, the first one is created. -/
theorem table?_createAll {definitions : List TableDefinition}
    (h : db.createAll definitions = .ok db') (name : String) :
    db'.table? name =
      (db.table? name).or ((definitions.find? (·.name = name)).map ({ definition := · })) := by
  unfold createAll at h
  induction definitions generalizing db with
  | nil =>
    obtain rfl := pure_eq_ok.1 h
    simp
  | cons d rest ih =>
    rw [List.foldlM_cons] at h
    obtain ⟨next, hnext, h⟩ := bind_eq_ok.1 h
    rw [ih h, table?_create hnext, Option.or_assoc]
    by_cases hd : d.name = name <;> simp [hd]

end Database

namespace Registry

variable {schemas : List Schema} {r : Registry} {a : Association} {join : JoinTable}

theorem find?_tables {table : String} (hschemas : table ∉ r.schemas.map (·.tableName))
    {x : Association × JoinTable}
    (h : r.joinAssociations.filter (·.2.table = table) = [x]) :
    r.tables.find? (·.name = table) = some (joinTableOf x.1 x.2) := by
  have hnone : (r.schemas.map r.tableOf).find? (·.name = table) = none := by
    rw [List.find?_eq_none]
    intro d hd hn
    obtain ⟨schema, hs, rfl⟩ := List.mem_map.1 hd
    exact hschemas (List.mem_map.2 ⟨schema, hs, of_decide_eq_true hn⟩)
  unfold tables
  rw [List.find?_append, hnone, Option.none_or, List.find?_map]
  show (r.joinAssociations.find? (fun y => decide (y.2.table = table))).map _ = _
  rw [← List.head?_filter, h]
  rfl

/-- **The first association makes the join table.** -/
theorem first_association_makes_table (h : assemble schemas = .ok r) (ha : a ∈ r.associations)
    (hk : a.kind = .hasManyThrough join) :
    r.associations.map (fun b => (b.source, b.name)) =
        schemas.flatMap (fun s => s.relationshipNames.map fun name => (s, name)) ∧
      ∃ first made, r.associations.find? (·.isStoredIn join.table) = some first ∧
        first.kind = .hasManyThrough made ∧
        (r.joinAssociations.map fun x => joinTableOf x.1 x.2).filter (·.name = join.table) =
          [joinTableOf first made] ∧
        joinTableOf first made ∈ r.tables ∧
        joinTableOf first made = {
          name := join.table
          columns := [
            ⟨columnName made.sourceKey, .ofKey first.source.idType, [.notNull,
              .references first.source.tableName first.source.idColumn .cascade]⟩,
            ⟨columnName made.targetKey, .ofKey first.target.idType, [.notNull,
              .references first.target.tableName first.target.idColumn .cascade]⟩]
          compositeKey := [columnName made.sourceKey, columnName made.targetKey] } ∧
        (columnName join.sourceKey ≠ columnName join.targetKey →
          ((joinTableOf a join).columns ⊆ (joinTableOf first made).columns ↔
            joinColumn made.sourceKey first.source = joinColumn join.sourceKey a.source ∧
                joinColumn made.targetKey first.target = joinColumn join.targetKey a.target ∨
              joinColumn made.sourceKey first.source = joinColumn join.targetKey a.target ∧
                joinColumn made.targetKey first.target = joinColumn join.sourceKey a.source)) ∧
        ∀ db, Database.empty.createAll r.tables = .ok db →
          join.table ∉ r.schemas.map (·.tableName) →
          db.table? join.table = some { definition := joinTableOf first made } ∧
          (a.HasKeys db ↔ [columnName join.sourceKey, columnName join.targetKey] ⊆
            [columnName made.sourceKey, columnName made.targetKey]) := by
  refine ⟨associations_of_assemble h, ?_⟩
  have hstored : a.isStoredIn join.table = true := by
    simp [Association.isStoredIn, Association.join?_eq_some.2 hk]
  obtain ⟨first, made, hfind, hkind, htable, hfilter⟩ := exists_first_of_isStoredIn h ha hstored
  have hm : (first, made) ∈ r.joinAssociations :=
    (List.mem_filter.1 (hfilter ▸ List.mem_singleton_self _)).1
  refine ⟨first, made, hfind, hkind, ?_, ?_, ?_, ?_, ?_⟩
  · rw [List.filter_map]
    exact congrArg (List.map fun x => joinTableOf x.1 x.2) hfilter
  · exact List.mem_append_right _ (List.mem_map_of_mem (f := fun x => joinTableOf x.1 x.2) hm)
  · rw [← htable]
    rfl
  · intro hne
    have hcolumns : joinColumn join.sourceKey a.source ≠ joinColumn join.targetKey a.target :=
      fun he => hne (congrArg ColumnDefinition.name he)
    simp only [joinTableOf, List.cons_subset, List.nil_subset, List.mem_cons, List.not_mem_nil,
      or_false, and_true]
    grind
  · intro db hdb hschemas
    have ht : db.table? join.table = some { definition := joinTableOf first made } := by
      rw [Database.table?_createAll hdb, find?_tables hschemas hfilter]
      rfl
    have hcolumn (column : String) : db.hasColumn join.table column = true ↔
        column ∈ [columnName made.sourceKey, columnName made.targetKey] := by
      rw [Database.hasColumn, ht, Option.bind_some, Table.column?, List.find?_isSome]
      simp [joinTableOf, joinColumn, eq_comm]
    refine ⟨ht, ?_⟩
    unfold Association.HasKeys
    rw [hk]
    dsimp only
    rw [hcolumn, hcolumn, List.cons_subset, List.cons_subset]
    simp

end Registry

/-! ## Courses and labels -/

/-- Students, who take courses. -/
def student : Schema where
  name := "Student"
  relationships := [("courses",
    .hasManyThrough "Course" (some "Enrollment") (some "studentId") (some "courseId"))]

/-- Courses, which students take. -/
def course : Schema where
  name := "Course"
  relationships := [("students",
    .hasManyThrough "Student" (some "Enrollment") (some "courseId") (some "studentId"))]

/-- The courses of a student. -/
def studentCourses : Association :=
  ⟨"courses", student, course,
    .hasManyThrough ⟨"Enrollment", "enrollment", "studentId", "courseId"⟩⟩

/-- The students of a course. -/
def courseStudents : Association :=
  ⟨"students", course, student,
    .hasManyThrough ⟨"Enrollment", "enrollment", "courseId", "studentId"⟩⟩

/-- Both directions are stored in one table. -/
def enrollments : Registry := ⟨[student, course], [studentCourses, courseStudents], []⟩

/-- Tags. -/
def tag : Schema where
  name := "Tag"

/-- Posts, which have tags. -/
def post : Schema where
  name := "Post"
  relationships := [("tags",
    .hasManyThrough "Tag" (some "Labels") (some "postId") (some "tagId"))]

/-- Photos, which have tags as well. -/
def photo : Schema where
  name := "Photo"
  relationships := [("tags",
    .hasManyThrough "Tag" (some "Labels") (some "photoId") (some "tagId"))]

/-- The join table of a photo's tags. -/
def photoLabels : JoinTable := ⟨"Labels", "labels", "photoId", "tagId"⟩

/-- The tags of a photo. -/
def photoTags : Association := ⟨"tags", photo, tag, .hasManyThrough photoLabels⟩

/-- Posts and photos name the same join table. -/
def labelled : Registry where
  schemas := [tag, post, photo]
  associations := [⟨"tags", post, tag, .hasManyThrough ⟨"Labels", "labels", "postId", "tagId"⟩⟩,
    photoTags]
  foreignKeys := []

namespace Registry

theorem assemble_enrollments : assemble [student, course] = .ok enrollments := by decide +kernel

/-- The students of a course are found in the table that was made for the courses of students. -/
theorem enrollments_from_both_sides :
    assemble [student, course] = .ok enrollments ∧ courseStudents ∈ enrollments.associations ∧
      (∃ db, Database.empty.createAll enrollments.tables = .ok db) ∧
      ∀ db, Database.empty.createAll enrollments.tables = .ok db → courseStudents.HasKeys db := by
  refine ⟨assemble_enrollments, by decide,
    ⟨⟨enrollments.tables.map ({ definition := · })⟩, by decide +kernel⟩, fun db hdb => ?_⟩
  obtain ⟨-, first, made, hfind, hkind, -, -, -, -, hcreated⟩ :=
    first_association_makes_table (a := courseStudents) assemble_enrollments (by decide) rfl
  have hfirst : enrollments.associations.find? (·.isStoredIn "enrollment") = some studentCourses :=
    by decide +kernel
  obtain rfl : studentCourses = first := Option.some.inj (hfirst.symm.trans hfind)
  cases hkind
  exact (hcreated db hdb (by decide)).2.2 (by decide)

/-- **Labels have no column for photos.** The table was made for the tags of posts. -/
theorem labels_lack_photos :
    assemble [tag, post, photo] = .ok labelled ∧ photoTags ∈ labelled.associations ∧
      photoTags.kind = .hasManyThrough photoLabels ∧
      (¬∃ d ∈ labelled.tables, d.name = photoLabels.table ∧
        joinColumn photoLabels.sourceKey photo ∈ d.columns) ∧
      ∃ db, Database.empty.createAll labelled.tables = .ok db ∧ ¬photoTags.HasKeys db := by
  refine ⟨by decide +kernel, by decide, rfl, by decide +kernel,
    ⟨labelled.tables.map ({ definition := · })⟩, by decide +kernel, fun h => ?_⟩
  exact absurd h.1 (by decide +kernel)

end Registry

end ResourceApi
