import ResourceApi.Proofs.Query.Pages
import ResourceApi.Proofs.Sql.Answer
import ResourceApi.Proofs.Sql.Identity

/-!
# Pages of rows

The order of a query is that of its sort keys. Rows that are equal on every key *tie*
(`Database.Ties`), and a database is free to put them in any order, and in another order in the
next query (`Database.MayShow`).

**Theorem (`Plan.pages_of_ofQuery`).** The keys that a query sorts by are those that are asked for,
and no others. Where they tell the matching rows apart (`Database.TellsApart`), as they do if the
primary key is among them, the pages of one size show every matching row exactly once, whatever the
database does with ties. Where they do not, this may go wrong for pages of one row.

The pages show every row because there is only one order that the keys allow, and all of them are
cut out of it. Rows that tie can change places from one query to the next, so that one of them is
shown in both places, and the other in none (`Database.exists_overlap`).
-/

namespace ResourceApi

/-! ## Ties -/

theorem Direction.compare_eq_eq_iff (d : Direction) (v w : SqlValue) :
    d.compare v w = .eq ↔ v.compare w = .eq := by
  cases d with
  | asc => exact Iff.rfl
  | desc => exact Ordering.swap_eq_eq

theorem sortsBefore_swap_iff {d : Direction} {ds : List Direction} {v w : SqlValue}
    {vs ws : List SqlValue} :
    (sortsBefore (d :: ds) (v :: vs) (w :: ws) = true ∧
        sortsBefore (d :: ds) (w :: ws) (v :: vs) = true) ↔
      v.compare w = .eq ∧ sortsBefore ds vs ws = true ∧ sortsBefore ds ws vs = true := by
  have hswap : d.compare w v = (d.compare v w).swap := Std.OrientedCmp.eq_swap
  rw [sortsBefore_cons, sortsBefore_cons, hswap, ← d.compare_eq_eq_iff]
  cases d.compare v w <;> simp

namespace Database

variable (db : Database) (q : SelectQuery)

/-- The rows are equal on every sort key. -/
def Ties (row next : Tuple) : Prop :=
  ∀ term ∈ q.order, (db.sortValue [⟨q.aliasId, q.table, row⟩] term.1).compare
    (db.sortValue [⟨q.aliasId, q.table, next⟩] term.1) = .eq

instance (row next : Tuple) : Decidable (db.Ties q row next) :=
  inferInstanceAs (Decidable (∀ term ∈ q.order, _ = Ordering.eq))

/-- Of rows that tie, each may stand before the other. -/
theorem ties_iff {row next : Tuple} : db.Ties q row next ↔
    db.precedes q row next = true ∧ db.precedes q next row = true := by
  unfold Ties precedes orderValues
  induction q.order with
  | nil => simp [sortsBefore]
  | cons term rest ih =>
    simp only [List.map_cons]
    rw [sortsBefore_swap_iff, List.forall_mem_cons, ih]

/-- The sort keys tell the matching rows apart, so that there is one order of them. -/
def TellsApart : Prop :=
  ∀ row ∈ db.filtered q.table q.aliasId q.condition,
    ∀ next ∈ db.filtered q.table q.aliasId q.condition, db.Ties q row next → row = next

instance : Decidable (db.TellsApart q) :=
  inferInstanceAs (Decidable (∀ row ∈ db.filtered q.table q.aliasId q.condition,
    ∀ next ∈ db.filtered q.table q.aliasId q.condition, db.Ties q row next → row = next))

/-- The database may show these rows: it puts the matching ones in any order that the sort keys
allow, and cuts out the window. -/
def MayShow (rows : List Tuple) : Prop :=
  ∃ ordered : List Tuple, ordered.Perm (db.filtered q.table q.aliasId q.condition) ∧
    ordered.Pairwise (fun row next => db.precedes q row next = true) ∧
    rows = window q.limit q.offset ordered

variable {db q}

/-- **Keys that tell rows apart leave one order.** -/
theorem TellsApart.eq_sorted (h : db.TellsApart q) {ordered : List Tuple}
    (hperm : ordered.Perm (db.filtered q.table q.aliasId q.condition))
    (hordered : ordered.Pairwise fun row next => db.precedes q row next = true) :
    ordered = db.sorted q := by
  have hsorted := db.sorted_perm q
  refine List.Perm.eq_of_pairwise ?_ hordered (db.sorted_pairwise q) (hperm.trans hsorted.symm)
  intro row next hrow hnext hbefore hafter
  exact h row (hperm.mem_iff.1 hrow) next (hsorted.mem_iff.1 hnext)
    ((db.ties_iff q).2 ⟨hbefore, hafter⟩)

end Database

/-! ## Pages of a query -/

/-- The query with the window of a page. -/
def SelectQuery.page (q : SelectQuery) (number size : Nat) : SelectQuery :=
  { q with
    limit := some (min size Plan.maxWindow)
    offset := some (min ((number - 1) * size) Plan.maxWindow) }

/-- Where there is one order, the pages are cut out of it. -/
theorem Database.TellsApart.flatMap_shown {db : Database} {q : SelectQuery} (h : db.TellsApart q)
    (hmax : (db.sorted q).length ≤ Plan.maxWindow) {size count : Nat} {shown : Nat → List Tuple}
    (hshown : ∀ i < count, db.MayShow (q.page (i + 1) size) (shown i)) :
    (List.range count).flatMap shown = (db.sorted q).take (count * size) := by
  have hpage : ∀ i ∈ List.range count,
      shown i = ((db.sorted q).drop (i * size)).take size := by
    intro i hi
    obtain ⟨ordered, hperm, hordered, hrows⟩ := hshown i (List.mem_range.1 hi)
    obtain rfl : ordered = db.sorted q := h.eq_sorted hperm hordered
    exact hrows.trans (window_page size (i * size) hmax)
  rw [← flatMap_pages, List.flatMap_congr hpage]

/-! ## Rows that change places -/

section

variable {α : Type} {first mid last : List α} {a b : α}

/-- Of two elements of a list, one stands before the other. -/
theorem exists_split_of_mem {xs : List α} (ha : a ∈ xs) (hb : b ∈ xs) (hne : a ≠ b) :
    ∃ first mid last, xs = (first ++ a :: mid) ++ b :: last ∨
      xs = (first ++ b :: mid) ++ a :: last := by
  obtain ⟨before, after, rfl⟩ := List.append_of_mem ha
  rcases List.mem_append.1 hb with hb | hb
  · obtain ⟨first, mid, rfl⟩ := List.append_of_mem hb
    exact ⟨first, mid, after, .inr rfl⟩
  · obtain ⟨mid, last, rfl⟩ := List.append_of_mem ((List.mem_cons.1 hb).resolve_left hne.symm)
    exact ⟨before, mid, last, .inl (by simp)⟩

theorem perm_exchange :
    ((first ++ b :: mid) ++ a :: last).Perm ((first ++ a :: mid) ++ b :: last) := by
  have hmove (x y : α) : ((first ++ x :: mid) ++ y :: last).Perm
      (x :: y :: (first ++ (mid ++ last))) := by
    rw [List.append_assoc, List.cons_append]
    exact List.perm_middle.trans (((List.perm_middle.append_left first).trans
      List.perm_middle).cons x)
  exact (hmove b a).trans ((List.Perm.swap a b _).trans (hmove a b).symm)

/-- Elements that may stand in either order can be exchanged. -/
theorem pairwise_exchange {R : α → α → Prop} (htrans : ∀ {x y z}, R x y → R y z → R x z)
    (hba : R b a)
    (h : ((first ++ a :: mid) ++ b :: last).Pairwise R) :
    ((first ++ b :: mid) ++ a :: last).Pairwise R := by
  rw [List.append_assoc, List.cons_append] at h ⊢
  rw [List.pairwise_append, List.pairwise_cons, List.pairwise_append, List.pairwise_cons] at h ⊢
  obtain ⟨hfirst, ⟨ha, hmid, ⟨hb, hlast⟩, hrest⟩, hbefore⟩ := h
  refine ⟨hfirst, ⟨?_, hmid, ⟨?_, hlast⟩, ?_⟩, ?_⟩
  · intro x hx
    rcases List.mem_append.1 hx with hx | hx
    · exact htrans hba (ha x (List.mem_append_left _ hx))
    · rcases List.mem_cons.1 hx with rfl | hx
      · exact hba
      · exact hb x hx
  · exact fun x hx => ha x (by simp [hx])
  · intro x hx y hy
    rcases List.mem_cons.1 hy with rfl | hy
    · exact htrans (hrest x hx b (by simp)) hba
    · exact hrest x hx y (by simp [hy])
  · intro x hx y hy
    exact hbefore x hx y (by simp at hy ⊢; tauto)

/-- One element of a list is shown as another one is, except at its own place. -/
theorem take_one_drop_append {before : List α} {i : Nat} (h : i ≠ before.length) :
    ((before ++ a :: last).drop i).take 1 = ((before ++ b :: last).drop i).take 1 := by
  rcases Nat.lt_or_gt_of_ne h with hlt | hgt
  · rw [List.drop_append_of_le_length hlt.le, List.drop_append_of_le_length hlt.le]
    have hpos : 1 ≤ (before.drop i).length := by rw [List.length_drop]; omega
    rw [List.take_append_of_le_length hpos, List.take_append_of_le_length hpos]
  · obtain ⟨k, rfl⟩ := Nat.exists_eq_add_of_lt hgt
    simp [List.drop_append, Nat.add_assoc]

end

namespace Database

variable {db : Database} {q : SelectQuery}

/-- Where two rows tie, pages of one row may show one of them twice, and the other not at all. -/
theorem exists_overlap {row next : Tuple} {first mid last : List Tuple}
    (hsorted : db.sorted q = (first ++ row :: mid) ++ next :: last) (hties : db.Ties q row next)
    (hmax : (db.sorted q).length ≤ Plan.maxWindow) :
    ∃ shown : Nat → List Tuple, (∀ i, db.MayShow (q.page (i + 1) 1) (shown i)) ∧
      (List.range (db.sorted q).length).flatMap shown = (first ++ row :: mid) ++ row :: last := by
  have hafter := ((db.ties_iff q).1 hties).2
  have hordered := db.sorted_pairwise q
  have hswap : ((first ++ next :: mid) ++ row :: last).Perm (db.sorted q) := by
    rw [hsorted]
    exact perm_exchange
  have hpairwise : ((first ++ next :: mid) ++ row :: last).Pairwise
      fun row next => db.precedes q row next = true := by
    rw [hsorted] at hordered
    exact pairwise_exchange (R := fun row next => db.precedes q row next = true)
      (db.precedes_trans q) hafter hordered
  refine ⟨fun i => (((first ++ row :: mid) ++ row :: last).drop (i * 1)).take 1, fun i => ?_, ?_⟩
  · beta_reduce
    rw [Nat.mul_one]
    by_cases hi : i = (first ++ row :: mid).length
    · -- in the place of the other row, the first one is shown if they are exchanged
      refine ⟨_, hswap.trans (db.sorted_perm q), hpairwise, ?_⟩
      refine Eq.trans ?_ (window_page 1 (i * 1) (hswap.length_eq ▸ hmax)).symm
      have hlength : (first ++ next :: mid).length = i := by simp [hi]
      rw [Nat.mul_one, List.drop_left' hi.symm, List.drop_left' hlength]
    · refine ⟨_, db.sorted_perm q, hordered, ?_⟩
      refine Eq.trans ?_ (window_page 1 (i * 1) hmax).symm
      rw [hsorted, Nat.mul_one]
      exact take_one_drop_append hi
  · rw [flatMap_pages]
    exact List.take_of_length_le (by simp [hsorted])

/-- **Where keys do not tell rows apart**, pages of one row may not show every row. -/
theorem exists_overlap_of_not_tellsApart (h : ¬ db.TellsApart q)
    (hmax : (db.sorted q).length ≤ Plan.maxWindow) :
    ∃ shown : Nat → List Tuple, (∀ i, db.MayShow (q.page (i + 1) 1) (shown i)) ∧
      ¬ ((List.range (db.sorted q).length).flatMap shown).Perm (db.sorted q) := by
  simp only [TellsApart, not_forall] at h
  obtain ⟨row, hrow, next, hnext, hties, hne⟩ := h
  have hsymm : db.Ties q next row := (db.ties_iff q).2 ((db.ties_iff q).1 hties).symm
  have hperm := db.sorted_perm q
  -- the list of what is shown has one row in the place of the other
  have key {row next : Tuple} {first mid last : List Tuple} (hne : row ≠ next)
      (hties : db.Ties q row next)
      (hsorted : db.sorted q = (first ++ row :: mid) ++ next :: last) :
      ∃ shown : Nat → List Tuple, (∀ i, db.MayShow (q.page (i + 1) 1) (shown i)) ∧
        ¬ ((List.range (db.sorted q).length).flatMap shown).Perm (db.sorted q) := by
    obtain ⟨shown, hshown, hrows⟩ := exists_overlap hsorted hties hmax
    refine ⟨shown, hshown, fun hall => hne ?_⟩
    rw [hrows, hsorted, List.perm_append_left_iff] at hall
    have hone : ([row] ++ last).Perm ([next] ++ last) := hall
    exact List.singleton_perm_singleton.1 ((List.perm_append_right_iff last).1 hone)
  obtain ⟨first, mid, last, hsorted | hsorted⟩ :=
    exists_split_of_mem (hperm.mem_iff.2 hrow) (hperm.mem_iff.2 hnext) hne
  · exact key hne hties hsorted
  · exact key (Ne.symm hne) hsymm hsorted

end Database

/-! ## Queries of pages -/

variable {schemas : List Schema} {r : Registry} {schema : Schema} {plan : Plan}

/-- Another window has the same query, but for the window. -/
theorem Statement.ofPlan_window {select : SelectQuery} {outputs : List Output}
    (h : ofPlan r schema plan = .ok (select, outputs)) (limit offset : Option Nat) :
    ofPlan r schema { plan with limit, offset } = .ok ({ select with limit, offset }, outputs) := by
  obtain ⟨m, hrun⟩ := Rendering.run_of_start h
  obtain ⟨table, k, htable, hrun⟩ := Rendering.run_bind_eq_ok.1 hrun
  obtain ⟨columns, k₁, hcolumns, hrun⟩ := Rendering.run_bind_eq_ok.1 hrun
  obtain ⟨related, k₂, hrelated, hrun⟩ := Rendering.run_bind_eq_ok.1 hrun
  obtain ⟨condition, k₃, hcondition, hrun⟩ := Rendering.run_bind_eq_ok.1 hrun
  obtain ⟨order, k₄, horder, hrun⟩ := Rendering.run_bind_eq_ok.1 hrun
  obtain ⟨hout, rfl⟩ := Rendering.run_pure_eq_ok.1 hrun
  obtain ⟨rfl, rfl⟩ := Prod.mk.inj hout
  refine Rendering.start_of_run (m := k₄) ?_
  refine Rendering.run_bind_eq_ok.2 ⟨table, k, htable, ?_⟩
  refine Rendering.run_bind_eq_ok.2 ⟨columns, k₁, hcolumns, ?_⟩
  refine Rendering.run_bind_eq_ok.2 ⟨related, k₂, hrelated, ?_⟩
  refine Rendering.run_bind_eq_ok.2 ⟨condition, k₃, hcondition, ?_⟩
  exact Rendering.run_bind_eq_ok.2 ⟨order, k₄, horder, rfl⟩

/-- Another page has the same query, but for the window. -/
theorem Statement.ofPlan_page {select : SelectQuery} {outputs : List Output}
    (h : ofPlan r schema plan = .ok (select, outputs)) (number size : Nat) :
    ofPlan r schema (plan.page number size) = .ok (select.page number size, outputs) :=
  ofPlan_window h (some (min size Plan.maxWindow)) (some (min ((number - 1) * size) Plan.maxWindow))

/-! ## Keys that tell rows apart -/

/-- **A primary key tells rows apart.** -/
theorem Database.Regular.tellsApart {db : Database} {q : SelectQuery} (hdb : db.Regular r)
    (hc : r.Creatable) (hs : schema ∈ r.schemas) (h : q.Renders r schema plan) {key : SortKey}
    (hkey : key ∈ plan.sort) (hpath : key.path = ⟨[], schema.idField⟩) : db.TellsApart q := by
  obtain ⟨term, hterm, -, n, m, hn, hvalue⟩ := exists_of_forall₂ h.order.flip hkey
  rw [hpath] at hvalue
  have hone : r.ToOne schema [] := trivial
  have hid (row : Tuple) : db.sortValue [⟨q.aliasId, q.table, row⟩] term.1 =
      row.get schema.idColumn :=
    Rendering.sortValue_sortValue hone hvalue hn
      (h.table ▸ Frame.binds_push [] q.aliasId q.table row)
  have hrows {row : Tuple} (hrow : row ∈ db.filtered q.table q.aliasId q.condition) :
      row ∈ db.rows schema.tableName := by
    rw [← h.table]
    unfold filtered at hrow
    split at hrow
    · exact hrow
    · exact List.mem_of_mem_filter hrow
  intro row hrow next hnext hties
  have hcompare := hties term hterm
  rw [hid, hid] at hcompare
  exact hdb.eq_of_equals hc hs (hrows hrow) (hrows hnext) (SqlValue.equals_iff.2
    ⟨hdb.idColumn_ne_null hc hs (hrows hrow), hdb.idColumn_ne_null hc hs (hrows hnext), hcompare⟩)

/-! ## Compiled pages -/

/-- The value that a row is sorted by. -/
def SortParam.valueOf (r : Registry) (db : Database) (schema : Schema) (param : SortParam)
    (row : Tuple) : SqlValue :=
  r.valueAlong db (Path.ofText param.field).field schema (Path.ofText param.field).relationships row

variable {params : Params} {query : String} {id : Option String} {number size : Nat}

section

variable {db : Database} {q : SelectQuery} (h : q.Renders r schema plan)
  (hsort : plan.sort = params.sort.map fun param => ⟨Path.ofText param.field, param.direction⟩)
  (hone : ∀ param ∈ params.sort, r.ToOne schema (Path.ofText param.field).relationships)

include h hsort hone

/-- Rows are sorted by the keys that are asked for. -/
theorem SelectQuery.Renders.orderValues_eq_map (row : Tuple) :
    db.orderValues q row = params.sort.map (·.valueOf r db schema row) := by
  have hone : ∀ key ∈ plan.sort, r.ToOne schema key.path.relationships := by
    rw [hsort]
    exact List.forall_mem_map.2 hone
  rw [h.orderValues_eq hone, Plan.sortValues, hsort, List.map_map]
  rfl

/-- Rows tie where they are equal on all keys that are asked for. -/
theorem SelectQuery.Renders.ties_iff {row next : Tuple} :
    db.Ties q row next ↔ ∀ param ∈ params.sort,
      (param.valueOf r db schema row).compare (param.valueOf r db schema next) = .eq := by
  have hvalues (row : Tuple) :
      (q.order.map fun term => db.sortValue [⟨q.aliasId, q.table, row⟩] term.1) =
        params.sort.map (·.valueOf r db schema row) :=
    h.orderValues_eq_map hsort hone row
  have hequal {α : Type} (xs : List α) (f g : α → SqlValue) :
      (∀ x ∈ xs, (f x).compare (g x) = .eq) ↔
        List.Forall₂ (fun v w => v.compare w = .eq) (xs.map f) (xs.map g) := by
    rw [List.forall₂_map_left_iff, List.forall₂_map_right_iff, List.forall₂_same]
  rw [hequal, ← hvalues, ← hvalues, ← hequal]
  rfl

end

namespace Plan

/-- **Pages show every matching row once if the sort keys tell them apart**, and pages of one row
only then. Rows are sorted by nothing but the keys that are asked for. -/
theorem pages_of_ofQuery (h : Registry.assemble schemas = .ok r) (hs : schema ∈ schemas)
    (hparse : Params.parse query = .ok params) (hasks : params.Asks number size)
    (hplan : ofQuery r schema query id = .ok plan) :
    (id = none ∨ schema.Addressable → ∃ out, Statement.ofPlan r schema plan = .ok out) ∧
    ∀ select outputs, Statement.ofPlan r schema plan = .ok (select, outputs) →
      (select.order.map (·.2) = params.sort.map (·.direction) ∧
        ((∀ param ∈ params.sort, r.ToOne schema (Path.ofText param.field).relationships) →
          ∀ db row, Database.orderValues db select row =
              params.sort.map (·.valueOf r db schema row) ∧
            ∀ next, Database.Ties db select row next ↔ ∀ param ∈ params.sort,
              (param.valueOf r db schema row).compare (param.valueOf r db schema next) = .eq)) ∧
      (∀ other raw n, Params.parse other = .ok { params with pageNumber := some raw } →
        positive? raw = some n →
          ofQuery r schema other id = .ok (plan.page n size) ∧
          Statement.ofPlan r schema (plan.page n size) = .ok (select.page n size, outputs)) ∧
      ((∃ param ∈ params.sort, Path.ofText param.field = ⟨[], schema.idField⟩) →
        (r.tables.map (·.name)).Nodup → ∀ s, Session.Reachable r s →
          s.database.TellsApart select) ∧
      ∀ db : Database, (plan.satisfying r db schema).length ≤ maxWindow →
        (db.TellsApart select → ∀ count shown,
          (plan.satisfying r db schema).length ≤ count * size →
          (∀ i < count, db.MayShow (select.page (i + 1) size) (shown i)) →
            ((List.range count).flatMap shown).Perm (plan.satisfying r db schema)) ∧
        (¬ db.TellsApart select → ∃ shown : Nat → List Tuple,
          (∀ i, db.MayShow (select.page (i + 1) 1) (shown i)) ∧
            ¬ ((List.range (plan.satisfying r db schema).length).flatMap shown).Perm
              (plan.satisfying r db schema)) := by
  have hr := Registry.coherent_of_assemble h
  have hm : schema ∈ r.schemas := (Registry.indexes_of_assemble h).registered ▸ hs
  obtain ⟨params', hparse', hcompile⟩ := ofQuery_eq_ok.1 hplan
  obtain rfl := Except.ok.inj (hparse.symm.trans hparse')
  have hreads := reads_compile hr hm hcompile
  have hsort := sort_of_compile hcompile
  refine ⟨fun hid => ?_, fun select outputs hselect => ?_⟩
  · obtain ⟨select, hselect⟩ := Statement.ofPlan_eq_ok (resolves_compile hr hm hid hcompile)
    exact ⟨_, hselect⟩
  obtain ⟨hrenders, -, -⟩ := Statement.renders_ofPlan hselect
  refine ⟨⟨?_, fun hone db row => ⟨?_, fun next => hrenders.ties_iff hsort hone⟩⟩, ?_, ?_, ?_⟩
  · have hdirections : select.order.map (·.2) = plan.sort.map (·.direction) :=
      map_eq_map_of_forall₂ (hrenders.order.imp fun _ _ hterm => hterm.1)
    rw [hdirections, hsort, List.map_map]
    rfl
  · exact hrenders.orderValues_eq_map hsort hone row
  · intro other raw n hother hraw
    exact ⟨ofQuery_eq_ok.2 ⟨_, hother, compile_page hcompile hasks hraw⟩,
      Statement.ofPlan_page hselect n size⟩
  · rintro ⟨param, hparam, hpath⟩ hn s hreachable
    obtain ⟨hc, hregular⟩ := Session.regular_of_reachable h hn hreachable
    have hkey : ⟨Path.ofText param.field, param.direction⟩ ∈ plan.sort := by
      rw [hsort]
      exact List.mem_map_of_mem hparam
    exact hregular.database.tellsApart hc hm hrenders hkey hpath
  · intro db hmax
    have hperm : (db.sorted select).Perm (plan.satisfying r db schema) := by
      rw [← hrenders.filtered_eq hreads.filter (filter_ne_any_of_compile hcompile)]
      exact db.sorted_perm select
    rw [← hperm.length_eq] at hmax ⊢
    refine ⟨fun hapart count shown hcount hshown => ?_, fun hnot => ?_⟩
    · rw [hapart.flatMap_shown hmax hshown, List.take_of_length_le hcount]
      exact hperm
    · obtain ⟨shown, hshown, hrows⟩ := Database.exists_overlap_of_not_tellsApart hnot hmax
      exact ⟨shown, hshown, fun hall => hrows (hall.trans hperm.symm)⟩

/-- A node of a name that others have, too. -/
def twin (id : Int) : Tuple := [("id", .integer id), ("name", .text "x"), ("up_id", .null)]

/-- Two nodes of one name. -/
def twins : Database :=
  ⟨[{ definition := tree.tableOf treeNode, lastKey := 2, rows := [twin 1, twin 2] }]⟩

/-- A page of one row, sorted by keys. -/
def pageBy (fields : List String) (number : String) : Params where
  sort := fields.map fun field => ⟨field, .asc⟩
  pageNumber := some number
  pageSize := some "1"

/-- The plan of the first page of one row, sorted by keys. -/
def firstBy (fields : List String) : Plan where
  filter := .all []
  sort := fields.map fun field => ⟨⟨[], field⟩, .asc⟩
  limit := some 1
  offset := some 0

/-- With the primary key among the sort keys, two pages show both nodes. -/
theorem pages_of_twins :
    Registry.assemble [treeNode] = .ok tree ∧
    ofQuery tree treeNode "sort=name,id&page[number]=1&page[size]=1" none =
      .ok (firstBy ["name", "id"]) ∧
    ∃ select outputs, Statement.ofPlan tree treeNode (firstBy ["name", "id"]) =
        .ok (select, outputs) ∧
      twins.TellsApart select ∧
      (∀ s, Session.Reachable tree s → s.database.TellsApart select) ∧
      ∀ shown, (∀ i < 2, twins.MayShow (select.page (i + 1) 1) (shown i)) →
        ((List.range 2).flatMap shown).Perm [twin 1, twin 2] := by
  have hparse : Params.parse "sort=name,id&page[number]=1&page[size]=1" =
      .ok (pageBy ["name", "id"] "1") := by
    decide +kernel
  have hasks : (pageBy ["name", "id"] "1").Asks 1 1 :=
    ⟨⟨"1", rfl, by decide +kernel⟩, ⟨"1", rfl, by decide +kernel⟩⟩
  have hplan : ofQuery tree treeNode "sort=name,id&page[number]=1&page[size]=1" none =
      .ok (firstBy ["name", "id"]) := ofQuery_eq_ok.2 ⟨_, hparse, rfl⟩
  have hapart : ∀ out, Statement.ofPlan tree treeNode (firstBy ["name", "id"]) = .ok out →
      twins.TellsApart out.1 := by
    decide +kernel
  have hrows : (firstBy ["name", "id"]).satisfying tree twins treeNode = [twin 1, twin 2] := by
    decide +kernel
  obtain ⟨hrendered, hpages⟩ :=
    pages_of_ofQuery assemble_node (by decide) hparse hasks hplan
  obtain ⟨⟨select, outputs⟩, hselect⟩ := hrendered (.inl rfl)
  obtain ⟨-, -, hkey, honce⟩ := hpages select outputs hselect
  refine ⟨assemble_node, hplan, select, outputs, hselect, hapart _ hselect, ?_, ?_⟩
  · exact hkey ⟨⟨"id", .asc⟩, by decide, by decide⟩ (by decide +kernel)
  · intro shown hshown
    have hperm := (honce twins (by rw [hrows]; decide)).1 (hapart _ hselect) 2 shown
      (by rw [hrows]; decide) hshown
    rwa [hrows] at hperm

/-- **Pages may overlap.** Two nodes of one name tie, and two pages may both show the first. -/
theorem pages_may_overlap :
    Registry.assemble [treeNode] = .ok tree ∧
    ofQuery tree treeNode "sort=name&page[number]=1&page[size]=1" none =
      .ok (firstBy ["name"]) ∧
    ofQuery tree treeNode "sort=name&page[number]=2&page[size]=1" none =
      .ok ((firstBy ["name"]).page 2 1) ∧
    ∃ select outputs,
      Statement.ofPlan tree treeNode (firstBy ["name"]) = .ok (select, outputs) ∧
      Statement.ofPlan tree treeNode ((firstBy ["name"]).page 2 1) =
        .ok (select.page 2 1, outputs) ∧
      (firstBy ["name"]).satisfying tree twins treeNode = [twin 1, twin 2] ∧
      twin 1 ≠ twin 2 ∧ twins.Ties select (twin 1) (twin 2) ∧
      twins.MayShow select [twin 1] ∧ twins.MayShow (select.page 2 1) [twin 1] := by
  have hfirst : Params.parse "sort=name&page[number]=1&page[size]=1" =
      .ok (pageBy ["name"] "1") := by
    decide +kernel
  have hsecond : Params.parse "sort=name&page[number]=2&page[size]=1" =
      .ok (pageBy ["name"] "2") := by
    decide +kernel
  refine ⟨assemble_node, ofQuery_eq_ok.2 ⟨_, hfirst, rfl⟩, ofQuery_eq_ok.2 ⟨_, hsecond, rfl⟩,
    _, _, rfl, rfl, by decide +kernel, by decide, by decide, ?_, ?_⟩
  · exact ⟨[twin 1, twin 2], .refl _, by decide, rfl⟩
  · exact ⟨[twin 2, twin 1], .swap _ _ _, by decide, rfl⟩

end Plan

end ResourceApi
