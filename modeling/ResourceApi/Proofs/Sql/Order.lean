import ResourceApi.Proofs.Double.Order
import ResourceApi.Sql.Query

/-!
# The order of rows

**Theorem (`SqlValue.compare_eq`).** Stored values are ordered by kind, then as numbers, as texts
and as bytes. The order is therefore a total preorder, and so is the lexicographic one of the values
that rows are sorted by.

**Theorem (`Database.sorted_pairwise`).** The rows of a query are those that meet its condition, and
every one of them stands before those that its sort values allow it to precede.
-/

namespace ResourceApi

namespace SqlValue

/-- The number that a value is, zero where it is none. -/
def amount : SqlValue → ℚ
  | integer i => i
  | real d => d.value
  | _ => 0

/-- The text that a value is, empty where it is none. -/
def letters : SqlValue → String
  | text s => s
  | _ => ""

/-- The bytes that a value is, empty where it is none. -/
def octets : SqlValue → List UInt8
  | blob bytes => bytes
  | _ => []

/-- **Stored values are ordered by kind and then within the kind.** -/
theorem compare_eq : compare = compareLex (compareOn kindRank)
    (compareLex (compareOn amount) (compareLex (compareOn letters) (compareOn octets))) := by
  have hint (i j : Int) : Ord.compare i j = Ord.compare (i : ℚ) (j : ℚ) :=
    compare_congr Int.cast_lt.symm Int.cast_lt.symm
  have hswap (x y : ℚ) : (Ord.compare x y).swap = Ord.compare y x := Std.OrientedOrd.eq_swap.symm
  funext a b
  by_cases hkind : a.kindRank = b.kindRank
  · cases a <;> cases b <;> cases hkind <;>
      simp [compare, compareLex, compareOn, kindRank, amount, letters, octets, hint, hswap,
        Double.compareInt_eq, Double.compare_eq]
  · -- values of different kinds compare by their kinds
    cases a <;> cases b <;> first | rfl | exact absurd rfl hkind

instance : Std.TransCmp compare := by
  rw [compare_eq]
  infer_instance

/-! ## Equal values -/

variable {u v w : SqlValue}

theorem equals_iff : v.equals w = true ↔ v ≠ .null ∧ w ≠ .null ∧ v.compare w = .eq := by
  simp [equals, and_assoc]

theorem equals_self (h : v ≠ .null) : v.equals v = true :=
  equals_iff.2 ⟨h, h, Std.ReflCmp.compare_self⟩

theorem equals_comm (v w : SqlValue) : v.equals w = w.equals v := by
  rw [Bool.eq_iff_iff, equals_iff, equals_iff]
  constructor
  · exact fun ⟨hv, hw, h⟩ => ⟨hw, hv, Std.OrientedCmp.eq_symm h⟩
  · exact fun ⟨hv, hw, h⟩ => ⟨hw, hv, Std.OrientedCmp.eq_symm h⟩

theorem equals_trans (h : u.equals v = true) (h' : v.equals w = true) : u.equals w = true := by
  obtain ⟨hu, -, huv⟩ := equals_iff.1 h
  obtain ⟨-, hw, hvw⟩ := equals_iff.1 h'
  exact equals_iff.2 ⟨hu, hw, Std.TransCmp.eq_trans huv hvw⟩

/-- Values that are equal to each other are equal to the same values. -/
theorem equals_congr_left (h : u.equals v = true) (w : SqlValue) : u.equals w = v.equals w := by
  rw [Bool.eq_iff_iff]
  exact ⟨equals_trans (equals_comm u v ▸ h), equals_trans h⟩

theorem equals_congr_right (h : v.equals w = true) (u : SqlValue) : u.equals v = u.equals w := by
  rw [equals_comm u v, equals_comm u w, equals_congr_left h u]

end SqlValue

/-! ## Sort keys -/

/-- The order of values in a direction. -/
def Direction.compare (d : Direction) (v w : SqlValue) : Ordering := d.orient (v.compare w)

instance (d : Direction) : Std.TransCmp d.compare := by
  cases d with
  | asc => exact inferInstanceAs (Std.TransCmp SqlValue.compare)
  | desc =>
    have h : Direction.desc.compare = fun v w => w.compare v := by
      funext v w
      exact (@Std.OrientedCmp.eq_swap _ SqlValue.compare _ _ _).symm
    rw [h]
    exact Std.TransCmp.opposite

theorem sortsBefore_cons {d : Direction} {ds : List Direction} {v w : SqlValue}
    {vs ws : List SqlValue} : sortsBefore (d :: ds) (v :: vs) (w :: ws) = true ↔
      d.compare v w = .lt ∨ d.compare v w = .eq ∧ sortsBefore ds vs ws = true := by
  simp only [sortsBefore, Direction.compare]
  cases d.orient (v.compare w) <;> simp

theorem sortsBefore_trans {ds : List Direction} {us vs ws : List SqlValue}
    (hu : us.length = ds.length) (hv : vs.length = ds.length) (hw : ws.length = ds.length)
    (huv : sortsBefore ds us vs = true) (hvw : sortsBefore ds vs ws = true) :
    sortsBefore ds us ws = true := by
  induction ds generalizing us vs ws with
  | nil => rfl
  | cons d ds ih =>
    obtain ⟨u, us, rfl⟩ := List.exists_cons_of_length_eq_add_one hu
    obtain ⟨v, vs, rfl⟩ := List.exists_cons_of_length_eq_add_one hv
    obtain ⟨w, ws, rfl⟩ := List.exists_cons_of_length_eq_add_one hw
    rw [sortsBefore_cons] at huv hvw ⊢
    rcases huv with huv | ⟨huv, hus⟩
    · rcases hvw with hvw | ⟨hvw, -⟩
      · exact .inl (Std.TransCmp.lt_trans huv hvw)
      · exact .inl (Std.TransCmp.lt_of_lt_of_eq huv hvw)
    · rcases hvw with hvw | ⟨hvw, hvs⟩
      · exact .inl (Std.TransCmp.lt_of_eq_of_lt huv hvw)
      · exact .inr ⟨Std.TransCmp.eq_trans huv hvw,
          ih (Nat.succ.inj hu) (Nat.succ.inj hv) (Nat.succ.inj hw) hus hvs⟩

theorem sortsBefore_total (ds : List Direction) (vs ws : List SqlValue) :
    sortsBefore ds vs ws = true ∨ sortsBefore ds ws vs = true := by
  induction ds generalizing vs ws with
  | nil => exact .inl rfl
  | cons d ds ih =>
    cases vs with
    | nil => exact .inl rfl
    | cons v vs =>
      cases ws with
      | nil => exact .inl rfl
      | cons w ws =>
        rw [sortsBefore_cons, sortsBefore_cons]
        cases h : d.compare v w with
        | lt => exact .inl (.inl rfl)
        | gt => exact .inr (.inl (Std.OrientedCmp.lt_of_gt h))
        | eq =>
          rcases ih vs ws with hs | hs
          · exact .inl (.inr ⟨rfl, hs⟩)
          · exact .inr (.inr ⟨Std.OrientedCmp.eq_symm h, hs⟩)

/-! ## Rows -/

namespace Database

variable (db : Database) (q : SelectQuery)

/-- The values by which a query sorts a row. -/
def orderValues (row : Tuple) : List SqlValue :=
  q.order.map fun (value, _) => db.sortValue [⟨q.aliasId, q.table, row⟩] value

/-- The sort keys of a query allow a row to stand before another one. -/
def precedes (row next : Tuple) : Bool :=
  sortsBefore (q.order.map (·.2)) (db.orderValues q row) (db.orderValues q next)

theorem sorted_eq : db.sorted q =
    (db.filtered q.table q.aliasId q.condition).mergeSort (db.precedes q) := by
  have h := List.map_mergeSort (r := db.precedes q)
    (s := fun a b => sortsBefore (q.order.map (·.2)) a.2 b.2)
    (f := fun row => (row, db.orderValues q row))
    (l := db.filtered q.table q.aliasId q.condition) fun _ _ _ _ => rfl
  show (List.mergeSort (List.map (fun row => (row, db.orderValues q row)) _) _).map (·.1) = _
  rw [← h, List.map_map]
  exact List.map_id _

/-- **The rows of a query are the ones that meet its condition.** -/
theorem sorted_perm : (db.sorted q).Perm (db.filtered q.table q.aliasId q.condition) := by
  rw [sorted_eq]
  exact List.mergeSort_perm _ _

theorem precedes_trans {row mid next : Tuple} (h : db.precedes q row mid = true)
    (h' : db.precedes q mid next = true) : db.precedes q row next = true := by
  have hlength (row : Tuple) : (db.orderValues q row).length = (q.order.map (·.2)).length := by
    rw [orderValues, List.length_map, List.length_map]
  exact sortsBefore_trans (hlength row) (hlength mid) (hlength next) h h'

/-- **The rows of a query stand in order.** -/
theorem sorted_pairwise : (db.sorted q).Pairwise fun row next => db.precedes q row next = true := by
  rw [sorted_eq]
  refine List.pairwise_mergeSort (fun a b c hab hbc => ?_) (fun a b => ?_) _
  · exact db.precedes_trans q hab hbc
  · exact Bool.or_eq_true_iff.2 (sortsBefore_total _ _ _)

end Database

end ResourceApi
