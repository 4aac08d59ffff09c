import ResourceApi.Proofs.Query.Selection
import ResourceApi.Proofs.Sql.Runs

/-!
# Rendered queries mean what the plan means

**Theorem (`Rendering.holds_condition`).** A rendered condition holds in a frame exactly where its
predicate selects the row that the frame binds to the alias of the table. `filtered_eq_selected` and
`sortValue_sortValue` say the same of filters and of sort keys.

The proofs follow the recursion of the rendering. What carries them is that aliases are fresh: the
alias of the table is below the counter, so the bindings that subqueries put in front of a frame are
never mistaken for it.
-/

namespace ResourceApi

/-! ## Frames -/

namespace Frame

/-- The frame binds an alias to a row of a table. -/
def Binds (f : Frame) (aliasId : Nat) (table : String) (row : Tuple) : Prop :=
  f.binding? aliasId = some ⟨aliasId, table, row⟩

variable {f : Frame} {i j : Nat} {t u : String} {row other : Tuple}

theorem binds_push (f : Frame) (i : Nat) (t : String) (row : Tuple) :
    Binds (⟨i, t, row⟩ :: f) i t row := by
  simp [Binds, binding?]

theorem Binds.push (h : f.Binds i t row) (hne : j ≠ i) : Binds (⟨j, u, other⟩ :: f) i t row := by
  simpa [Binds, binding?, hne] using h

theorem Binds.value (h : f.Binds i t row) (column : String) :
    f.value ⟨i, column⟩ = row.get column := by
  unfold Frame.value
  rw [show f.binding? i = _ from h]

end Frame

namespace Database

variable (db : Database) {f : Frame} {i j : Nat} {t u : String} {row other : Tuple}

theorem affinityIn_of_binds (h : f.Binds i t row) (column : String) :
    db.affinityIn f ⟨i, column⟩ = db.affinity t column := by
  unfold affinityIn
  rw [show f.binding? i = _ from h]

theorem equalColumns_of_binds (hi : f.Binds i t row) (hj : f.Binds j u other)
    (c d : String) :
    db.equalColumns f ⟨i, c⟩ ⟨j, d⟩ = db.equalCells ⟨t, row, c⟩ ⟨u, other, d⟩ := by
  unfold equalColumns equalCells
  rw [db.affinityIn_of_binds hi, db.affinityIn_of_binds hj, hi.value, hj.value]

end Database

namespace Rendering

variable {r : Registry} {db : Database} {schema : Schema}

/-! ## Names -/

/-- The table of an association's source is that of the schema it was found for. -/
theorem tableName_source {name : String} {a : Association}
    (h : r.association? schema name = some a) : schema.tableName = a.source.tableName := by
  unfold Schema.tableName
  rw [(Registry.mem_of_association? h).2.1]

/-! ## Join conditions -/

theorem grows_join (a : Association) (inner table : Nat) : Grows (join a inner table) := by
  unfold join
  split
  · exact grows_pure _
  · exact grows_pure _
  · exact grows_pure _
  · exact grows_aliasId.bind fun _ => grows_pure _

/-- A rendered join condition holds where the association ties the rows. -/
theorem joins_join {a : Association} {inner table n m : Nat} {condition : JoinCondition}
    (h : (join a inner table).run n = .ok (condition, m)) (hi : inner < n) (ht : table < inner)
    {f : Frame} {row : Tuple} (hf : f.Binds table a.source.tableName row) (target : Tuple) :
    db.joins (⟨inner, a.target.tableName, target⟩ :: f) condition = a.ties db row target := by
  have hinner := Frame.binds_push f inner a.target.tableName target
  have htable : Frame.Binds (⟨inner, a.target.tableName, target⟩ :: f) table _ row :=
    hf.push (by omega)
  unfold join at h
  unfold Association.ties
  cases hk : a.kind with
  | belongsTo key | hasOne key | hasMany key =>
    rw [hk] at h
    obtain ⟨rfl, -⟩ := run_pure_eq_ok.1 h
    exact db.equalColumns_of_binds hinner htable _ _
  | hasManyThrough j =>
    rw [hk] at h
    obtain ⟨link, k, hl, h⟩ := run_bind_eq_ok.1 h
    obtain ⟨rfl, rfl⟩ := run_aliasId_eq_ok.1 hl
    obtain ⟨rfl, -⟩ := run_pure_eq_ok.1 h
    unfold Database.joins
    refine congrArg (db.rows j.table).any (funext fun row' => ?_)
    have hlink := Frame.binds_push (⟨inner, a.target.tableName, target⟩ :: f) link j.table row'
    dsimp only
    rw [db.equalColumns_of_binds hlink (htable.push (by omega)),
      db.equalColumns_of_binds (hinner.push (by omega)) hlink]
    rfl

/-! ## Comparisons -/

/-- Only null is stored as null. -/
theorem ofJson_eq_null {value : Json} : SqlValue.ofJson value = .null ↔ value = .null := by
  cases value with
  | int i =>
    rw [SqlValue.ofJson]
    split <;> simp
  | _ => simp [SqlValue.ofJson]

theorem number?_ne_null (s : String) : SqlValue.number? s ≠ some .null := by
  unfold SqlValue.number? SqlValue.condense
  dsimp only
  split
  · simp
  · simp only [ne_eq, Option.map_eq_some_iff, not_exists, not_and]
    intro d _
    split
    · split <;> simp
    · simp

/-- Nothing but null is taken for null. -/
theorem convert_eq_null {a : Affinity} {v : SqlValue} : a.convert v = .null ↔ v = .null := by
  have hnumeric : Affinity.numeric v = .null ↔ v = .null := by
    cases v with
    | text s =>
      have := number?_ne_null s
      rw [Affinity.numeric]
      cases hn : SqlValue.number? s with
      | none => simp
      | some n =>
        rw [hn] at this
        simpa using this
    | _ => simp [Affinity.numeric]
  cases a with
  | text => cases v <;> simp [Affinity.convert, Affinity.textual]
  | integer => exact hnumeric
  | real => exact hnumeric

/-- A value is outside of some others if it is unlike each of them. -/
theorem holds_notAmong {values : List Json} {column : String} {table : Nat} {f : Frame}
    {t : String} {row : Tuple} (hf : f.Binds table t row) (hne : values ≠ []) :
    db.holds f (.notAmong ⟨table, column⟩ (values.map .ofJson)) =
      values.all (Operator.ne.compares (db.affinity t column) (row.get column)) := by
  obtain ⟨first, hfirst⟩ := List.exists_mem_of_ne_nil values hne
  have hnull : (values.map SqlValue.ofJson).contains .null = true ↔ .null ∈ values := by
    simp only [List.contains_iff_mem, List.mem_map, ofJson_eq_null, exists_eq_right]
  rw [Bool.eq_iff_iff, List.all_eq_true, Database.holds]
  simp only [Database.isAmong, Database.comparand, db.affinityIn_of_binds hf, hf.value,
    SqlValue.equals, Operator.compares, Operator.admits, List.any_map, List.any_eq_true,
    Function.comp_apply, Bool.and_eq_true, Bool.not_eq_true', ← Bool.not_eq_true, bne_iff_ne,
    ne_eq, beq_iff_eq, hnull, convert_eq_null, ofJson_eq_null, not_exists, not_and]
  constructor
  · rintro ⟨⟨hs, hn⟩, hall⟩ v hv
    have hvn : v ≠ .null := fun he => hn (he ▸ hv)
    exact ⟨⟨hs, hvn⟩, hall v hv ⟨hs, hvn⟩⟩
  · intro hall
    exact ⟨⟨(hall first hfirst).1.1, fun hn => (hall .null hn).1.2 rfl⟩,
      fun v hv _ heq => (hall v hv).2 heq⟩

/-- A rendered comparison holds where the stored value meets the operator. -/
theorem holds_compare {operator : Operator} {value : Json} {column : String} {table : Nat}
    {condition : RowCondition} (h : compare ⟨table, column⟩ operator value = .ok condition)
    {f : Frame} {t : String} {row : Tuple} (hf : f.Binds table t row) :
    db.holds f condition = operator.meets (db.affinity t column) value (row.get column) := by
  have hvalue := hf.value column
  have hcomparand (v : SqlValue) : db.comparand f ⟨table, column⟩ v =
      (db.affinity t column).convert v := by
    rw [Database.comparand, db.affinityIn_of_binds hf]
  have hcompare {comparison : Comparison} {v : SqlValue} (hne : comparison ≠ .like) :
      db.holds f (.compare ⟨table, column⟩ comparison v) =
        comparison.holds (row.get column) ((db.affinity t column).convert v) := by
    rw [Database.holds, hvalue, hcomparand]
    exact hne
  cases operator with
  | among =>
    cases value with
    | arr values =>
      have hamong : db.isAmong f ⟨table, column⟩ (values.map .ofJson) =
          values.any (Operator.eq.compares (db.affinity t column) (row.get column)) := by
        simp only [Database.isAmong, List.any_map, Function.comp_def, hvalue, hcomparand]
        rfl
      cases values with
      | nil =>
        cases h
        rfl
      | cons v vs =>
        cases h
        exact hamong
    | _ => cases h
  | notAmong =>
    cases value with
    | arr values =>
      cases values with
      | nil =>
        cases h
        rfl
      | cons v vs =>
        cases h
        exact holds_notAmong hf (by simp)
    | _ => cases h
  | like =>
    obtain rfl : RowCondition.compare ⟨table, column⟩ .like (.ofJson value) = condition := by
      cases value <;> exact Except.ok.inj h
    rw [Database.holds, hvalue]
    rfl
  | ilike =>
    obtain rfl : RowCondition.ilike ⟨table, column⟩ (.ofJson value) = condition := by
      cases value <;> exact Except.ok.inj h
    rw [Database.holds, hvalue]
    rfl
  | eq | ne =>
    cases value with
    | null =>
      cases h
      rw [Database.holds, hvalue]
      rfl
    | _ =>
      cases h
      rw [hcompare (by nofun)]
      rfl
  | _ =>
    cases value <;> cases h <;> rw [hcompare (by nofun)] <;> rfl

/-! ## Conditions -/

theorem grows_pathCondition (field : String) (operator : Operator) (value : Json)
    (names : List String) (schema : Schema) (table : Nat) :
    Grows (pathCondition r field operator value schema table names) := by
  induction names generalizing schema table with
  | nil => exact (grows_lift _).bind fun _ => grows_lift _
  | cons name rest ih =>
    exact (grows_lift _).bind fun _ => grows_aliasId.bind fun _ => (grows_join _ _ _).bind fun _ =>
      (ih _ _).bind fun _ => grows_pure _

/-- A condition that is rendered along a chain holds where the chain leads to a row that meets the
operator. -/
theorem holds_pathCondition {c : Condition} {names : List String} {table n m : Nat}
    {condition : RowCondition}
    (h : (pathCondition r c.path.field c.operator c.value schema table names).run n =
      .ok (condition, m)) (ht : table < n) {f : Frame} {row : Tuple}
    (hf : f.Binds table schema.tableName row) :
    db.holds f condition = r.reachesAny db (fun owner last => c.operator.meets
      (db.affinity owner.tableName (columnName c.path.field)) c.value
      (last.get (columnName c.path.field))) schema names row := by
  induction names generalizing schema table n m condition f row with
  | nil =>
    obtain ⟨column, k, hc, h⟩ := run_bind_eq_ok.1 h
    obtain ⟨hc, -⟩ := run_lift_eq_ok.1 hc
    obtain ⟨h, -⟩ := run_lift_eq_ok.1 h
    rw [column_eq_ok hc] at h
    exact holds_compare h hf
  | cons name rest ih =>
    obtain ⟨a, k, hlift, h⟩ := run_bind_eq_ok.1 h
    obtain ⟨hok, rfl⟩ := run_lift_eq_ok.1 hlift
    obtain ⟨inner, k, hi, h⟩ := run_bind_eq_ok.1 h
    obtain ⟨rfl, rfl⟩ := run_aliasId_eq_ok.1 hi
    obtain ⟨joined, k, hj, h⟩ := run_bind_eq_ok.1 h
    obtain ⟨below, l, hb, h⟩ := run_bind_eq_ok.1 h
    obtain ⟨rfl, -⟩ := run_pure_eq_ok.1 h
    have ha := association_eq_ok.1 hok
    have hk := grows_join a inner table hj
    rw [tableName_source ha] at hf
    have key (next : Tuple) :
        (db.joins (⟨inner, a.target.tableName, next⟩ :: f) joined &&
          db.holds (⟨inner, a.target.tableName, next⟩ :: f) below) =
        (a.ties db row next && r.reachesAny db (fun owner last => c.operator.meets
          (db.affinity owner.tableName (columnName c.path.field)) c.value
          (last.get (columnName c.path.field))) a.target rest next) := by
      rw [joins_join hj (by omega) ht hf next, ih hb (by omega) (Frame.binds_push f inner _ next)]
    rw [Database.holds, Registry.reachesAny, ha]
    simp only [key, Association.relatedRows, List.any_filter]

mutual

theorem grows_condition (table : Nat) : ∀ p : Predicate, Grows (condition r schema table p)
  | .condition _ => by
    unfold condition
    exact grows_pathCondition _ _ _ _ _ _
  | .all [] | .any [] => by
    unfold condition
    exact grows_pure _
  | .all (child :: rest) | .any (child :: rest) => by
    unfold condition
    exact (grows_conditions table (child :: rest)).bind fun _ => grows_pure _

theorem grows_conditions (table : Nat) :
    ∀ children : List Predicate, Grows (conditions r schema table children)
  | [] => by
    unfold conditions
    exact grows_pure _
  | child :: rest => by
    unfold conditions
    exact (grows_condition table child).bind fun _ => (grows_conditions table rest).bind fun _ =>
      grows_pure _

end

mutual

/-- **A rendered predicate holds in a frame exactly where the predicate selects the row.** -/
theorem holds_condition {table : Nat} {f : Frame} {row : Tuple}
    (hf : f.Binds table schema.tableName row) : ∀ {p : Predicate} {n m : Nat} {c : RowCondition},
    (condition r schema table p).run n = .ok (c, m) → table < n →
    db.holds f c = p.selects r db schema row
  | .condition c, n, m, rendered, h, ht => by
    unfold condition at h
    rw [holds_pathCondition h ht hf]
    rfl
  | .all [], n, m, rendered, h, _ => by
    unfold condition at h
    obtain ⟨rfl, -⟩ := run_pure_eq_ok.1 h
    rfl
  | .any [], n, m, rendered, h, _ => by
    unfold condition at h
    obtain ⟨rfl, -⟩ := run_pure_eq_ok.1 h
    rfl
  | .all (child :: rest), n, m, rendered, h, ht => by
    unfold condition at h
    obtain ⟨cs, k, hcs, h⟩ := run_bind_eq_ok.1 h
    obtain ⟨rfl, -⟩ := run_pure_eq_ok.1 h
    rw [Predicate.selects, Predicate.eval, Database.holds]
    exact (holds_conditions hf hcs ht).1
  | .any (child :: rest), n, m, rendered, h, ht => by
    unfold condition at h
    obtain ⟨cs, k, hcs, h⟩ := run_bind_eq_ok.1 h
    obtain ⟨rfl, -⟩ := run_pure_eq_ok.1 h
    rw [Predicate.selects, Predicate.eval, Database.holds]
    exact (holds_conditions hf hcs ht).2

theorem holds_conditions {table : Nat} {f : Frame} {row : Tuple}
    (hf : f.Binds table schema.tableName row) : ∀ {children : List Predicate} {n m : Nat}
    {cs : List RowCondition}, (conditions r schema table children).run n = .ok (cs, m) →
    table < n →
    db.allHold f cs = Predicate.evalAll (·.selects r db schema row) children ∧
      db.anyHolds f cs = Predicate.evalAny (·.selects r db schema row) children
  | [], n, m, cs, h, _ => by
    unfold conditions at h
    obtain ⟨rfl, -⟩ := run_pure_eq_ok.1 h
    exact ⟨rfl, rfl⟩
  | child :: rest, n, m, cs, h, ht => by
    unfold conditions at h
    obtain ⟨c, k, hc, h⟩ := run_bind_eq_ok.1 h
    obtain ⟨cs', l, hcs, h⟩ := run_bind_eq_ok.1 h
    obtain ⟨rfl, -⟩ := run_pure_eq_ok.1 h
    have hk := grows_condition table child hc
    have hchild : db.holds f c = child.eval (·.selects r db schema row) :=
      holds_condition hf hc ht
    have hrest := holds_conditions hf hcs (by omega)
    rw [Database.allHold, Database.anyHolds, Predicate.evalAll, Predicate.evalAny, hchild,
      hrest.1, hrest.2]
    exact ⟨rfl, rfl⟩

end

/-- **A rendered filter keeps the rows that the predicate selects.** A disjunction of nothing, which
selects no row, is rendered as no condition. -/
theorem filtered_eq_selected {p : Predicate} (hany : p ≠ .any []) {table n m : Nat}
    {c : Option RowCondition} (h : (filter r schema table p).run n = .ok (c, m)) (ht : table < n) :
    db.filtered schema.tableName table c = p.selected r db schema := by
  unfold filter at h
  split at h
  · rename_i hempty
    obtain ⟨rfl, -⟩ := run_pure_eq_ok.1 h
    have hall : p = .all [] := by
      cases p with
      | condition c => cases hempty
      | all children => rw [List.isEmpty_iff.1 hempty]
      | any children => exact absurd (congrArg Predicate.any (List.isEmpty_iff.1 hempty)) hany
    subst hall
    exact (List.filter_eq_self.2 fun _ _ => rfl).symm
  · obtain ⟨condition, k, hc, h⟩ := run_bind_eq_ok.1 h
    obtain ⟨rfl, -⟩ := run_pure_eq_ok.1 h
    refine List.filter_congr ?_
    intro row _
    exact holds_condition (Frame.binds_push [] table schema.tableName row) hc ht

theorem grows_filter (table : Nat) (p : Predicate) : Grows (filter r schema table p) := by
  unfold filter
  split
  · exact grows_pure _
  · exact (grows_condition table p).bind fun _ => grows_pure _

/-! ## Sort values and related rows -/

theorem grows_sortValue (field : String) (names : List String) (schema : Schema) (table : Nat) :
    Grows (sortValue r field schema table names) := by
  induction names generalizing schema table with
  | nil => exact (grows_lift _).bind fun _ => grows_pure _
  | cons name rest ih =>
    exact (grows_lift _).bind fun _ => grows_aliasId.bind fun _ => (ih _ _).bind fun _ =>
      (grows_join _ _ _).bind fun _ => grows_pure _

/-- The rows that a rendered join condition ties to a row come in the order of their table where the
association leads to at most one. -/
theorem joined_join {a : Association} (hone : a.cardinality = .one) {inner table n m : Nat}
    {condition : JoinCondition} (h : (join a inner table).run n = .ok (condition, m))
    (hi : inner < n) (ht : table < inner) {f : Frame} {row : Tuple}
    (hf : f.Binds table a.source.tableName row) :
    db.joined f a.target.tableName inner condition = a.relatedRows db row := by
  have hrows : (db.rows a.target.tableName).filter (fun target =>
      db.joins (⟨inner, a.target.tableName, target⟩ :: f) condition) = a.relatedRows db row :=
    List.filter_congr fun target _ => joins_join h hi ht hf target
  unfold join at h
  unfold Database.joined
  cases hk : a.kind with
  | belongsTo key | hasOne key =>
    rw [hk] at h
    obtain ⟨rfl, -⟩ := run_pure_eq_ok.1 h
    exact hrows
  | hasMany key | hasManyThrough j =>
    rw [Association.cardinality, hk] at hone
    cases hone

/-- A rendered sort value is the value that the chain of to-one relationships leads to. -/
theorem sortValue_sortValue {field : String} {names : List String}
    (hone : r.ToOne schema names) {table n m : Nat} {value : SortValue}
    (h : (sortValue r field schema table names).run n = .ok (value, m)) (ht : table < n)
    {f : Frame} {row : Tuple} (hf : f.Binds table schema.tableName row) :
    db.sortValue f value = r.valueAlong db field schema names row := by
  induction names generalizing schema table n m value f row with
  | nil =>
    obtain ⟨column, k, hc, h⟩ := run_bind_eq_ok.1 h
    obtain ⟨hc, -⟩ := run_lift_eq_ok.1 hc
    obtain ⟨rfl, -⟩ := run_pure_eq_ok.1 h
    rw [Database.sortValue, column_eq_ok hc, hf.value]
    rfl
  | cons name rest ih =>
    obtain ⟨a, k, hlift, h⟩ := run_bind_eq_ok.1 h
    obtain ⟨hok, rfl⟩ := run_lift_eq_ok.1 hlift
    obtain ⟨inner, k, hi, h⟩ := run_bind_eq_ok.1 h
    obtain ⟨rfl, rfl⟩ := run_aliasId_eq_ok.1 hi
    obtain ⟨below, k, hb, h⟩ := run_bind_eq_ok.1 h
    obtain ⟨joined, l, hj, h⟩ := run_bind_eq_ok.1 h
    obtain ⟨rfl, -⟩ := run_pure_eq_ok.1 h
    have ha := association_eq_ok.1 hok
    have hk := grows_sortValue field rest a.target inner hb
    have hto := hone a ha
    rw [tableName_source ha] at hf
    rw [Database.sortValue, joined_join hto.1 hj (by omega) ht hf, Registry.valueAlong, ha]
    dsimp only
    cases a.relatedRows db row with
    | nil => rfl
    | cons next others => exact ih hto.2 hb (by omega) (Frame.binds_push f inner _ next)

mutual

theorem grows_related (schema : Schema) (table : Nat) :
    ∀ node : IncludeNode, Grows (related r schema table node)
  | .mk relationship target selection nested => by
    unfold related
    refine (grows_lift _).bind fun a => grows_aliasId.bind fun inner => ?_
    refine (grows_mapM (fun _ => (grows_lift _).bind fun _ => grows_pure _) _).bind fun _ => ?_
    exact (grows_relatedMembers a.target inner nested).bind fun _ =>
      (grows_join _ _ _).bind fun _ => grows_pure _

theorem grows_relatedMembers (schema : Schema) (table : Nat) :
    ∀ nodes : List IncludeNode, Grows (relatedMembers r schema table nodes)
  | [] => by
    unfold relatedMembers
    exact grows_pure _
  | node :: rest => by
    unfold relatedMembers
    exact (grows_related schema table node).bind fun _ =>
      (grows_relatedMembers schema table rest).bind fun _ => grows_pure _

end

end Rendering

end ResourceApi
