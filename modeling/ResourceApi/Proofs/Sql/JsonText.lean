import ResourceApi.Proofs.Sql.Answer
import ResourceApi.Sql.JsonText

/-!
# Related rows through JSON text

Related rows come as JSON text. A number that is written with fifteen digits may be past the largest
one, and then it cannot be read; nothing else can go wrong with objects that hold columns.

**Theorems (`Database.relatedFault?_eq_none`, `Json.exists_throughText`).** In a database whose
numbers can all be read from their texts (`Database.Rereads`), related rows can be built and read.
-/

namespace ResourceApi

namespace Json

mutual

/-- Every floating point number in the value can be read from its text. -/
def Rereads : Json → Prop
  | float d => (rereadNumber d).isSome = true
  | arr items => AllReread items
  | obj members => MembersReread members
  | _ => True

/-- Every floating point number in several values can be read from its text. -/
def AllReread : List Json → Prop
  | [] => True
  | item :: rest => Rereads item ∧ AllReread rest

/-- Every floating point number in several members can be read from its text. -/
def MembersReread : List (String × Json) → Prop
  | [] => True
  | (_, value) :: rest => Rereads value ∧ MembersReread rest

end

theorem allReread_iff {items : List Json} : AllReread items ↔ ∀ item ∈ items, item.Rereads := by
  induction items with
  | nil => simp [AllReread]
  | cons item rest ih => simp [AllReread, ih]

theorem membersReread_append {a b : List (String × Json)} :
    MembersReread (a ++ b) ↔ MembersReread a ∧ MembersReread b := by
  induction a with
  | nil => simp [MembersReread]
  | cons m rest ih => simp [MembersReread, ih, and_assoc]

mutual

theorem exists_reread (start : Nat) : ∀ {value : Json}, value.Rereads →
    ∃ out, value.reread start = .ok out
  | float d, h => by
    obtain ⟨value, hv⟩ := Option.isSome_iff_exists.1 h
    exact ⟨_, by rw [reread, hv]⟩
  | arr [], _ => ⟨_, by rw [reread]⟩
  | arr (item :: rest), h => by
    obtain ⟨⟨items, stop⟩, hi⟩ := exists_rereadItems (start + 1) h
    refine ⟨(arr items, stop), ?_⟩
    rw [reread, hi]
    · rfl
    · nofun
  | obj [], _ => ⟨_, by rw [reread]⟩
  | obj (member :: rest), h => by
    obtain ⟨⟨members, stop⟩, hm⟩ := exists_rereadMembers (start + 1) h
    refine ⟨(obj (Object.ofList members), stop), ?_⟩
    rw [reread, hm]
    · rfl
    · nofun
  | null, _ => ⟨_, by rw [reread]⟩
  | bool _, _ => ⟨_, by rw [reread]⟩
  | int _, _ => ⟨_, by rw [reread]⟩
  | str _, _ => ⟨_, by rw [reread]⟩

theorem exists_rereadItems (start : Nat) : ∀ {items : List Json}, AllReread items →
    ∃ out, rereadItems start items = .ok out
  | [], _ => ⟨_, by rw [rereadItems]⟩
  | item :: rest, ⟨hitem, hrest⟩ => by
    obtain ⟨⟨value, stop⟩, hv⟩ := exists_reread start hitem
    obtain ⟨⟨others, stop'⟩, ho⟩ := exists_rereadItems (stop + 1) hrest
    exact ⟨(value :: others, stop'), bind_eq_ok.2 ⟨_, hv, bind_eq_ok.2 ⟨_, ho, rfl⟩⟩⟩

theorem exists_rereadMembers (start : Nat) : ∀ {members : List (String × Json)},
    MembersReread members → ∃ out, rereadMembers start members = .ok out
  | [], _ => ⟨_, by rw [rereadMembers]⟩
  | (key, value) :: rest, ⟨hvalue, hrest⟩ => by
    obtain ⟨⟨value', stop⟩, hv⟩ := exists_reread (start + (quote key).utf8ByteSize + 1) hvalue
    obtain ⟨⟨others, stop'⟩, ho⟩ := exists_rereadMembers (stop + 1) hrest
    exact ⟨((key, value') :: others, stop'), bind_eq_ok.2 ⟨_, hv, bind_eq_ok.2 ⟨_, ho, rfl⟩⟩⟩

end

theorem exists_throughText {value : Json} (h : value.Rereads) :
    ∃ out, value.throughText = .ok out := by
  obtain ⟨⟨out, stop⟩, hout⟩ := exists_reread 0 h
  exact ⟨out, by rw [throughText, hout]; rfl⟩

end Json

/-- A stored value is no number that cannot be read from its text. -/
def SqlValue.rereads : SqlValue → Bool
  | real d => (Json.rereadNumber d).isSome
  | _ => true

namespace Database

/-- Every number in the database can be read from its text. -/
def Rereads (db : Database) : Prop :=
  ∀ t ∈ db.tables, ∀ row ∈ t.rows, ∀ cell ∈ row, cell.2.rereads = true

instance (db : Database) : Decidable db.Rereads :=
  inferInstanceAs (Decidable (∀ t ∈ db.tables, ∀ row ∈ t.rows, ∀ cell ∈ row, cell.2.rereads = true))

/-- The rows of the frame are rows of the database. -/
def Holds (db : Database) (f : Frame) : Prop := ∀ b ∈ f, b.row ∈ db.rows b.table

variable {db : Database} {f : Frame}

theorem Holds.push (h : db.Holds f) (aliasId : Nat) {table : String} {row : Tuple}
    (hm : row ∈ db.rows table) : db.Holds (⟨aliasId, table, row⟩ :: f) :=
  List.forall_mem_cons.2 ⟨hm, h⟩

theorem mem_rows_of_mem_joined {table : String} {aliasId : Nat} {join : JoinCondition} {row : Tuple}
    (h : row ∈ db.joined f table aliasId join) : row ∈ db.rows table := by
  unfold joined at h
  cases join with
  | equal left right => exact (List.mem_filter.1 h).1
  | through member link linkId targetKey sourceKey parent =>
    exact (List.mem_filter.1 (List.mem_mergeSort.1 h)).1

theorem mem_rows_of_mem_filtered {table : String} {aliasId : Nat} {condition : Option RowCondition}
    {row : Tuple} (h : row ∈ db.filtered table aliasId condition) : row ∈ db.rows table := by
  unfold filtered at h
  split at h
  · exact h
  · exact (List.mem_filter.1 h).1

theorem mem_of_mem_window {α : Type} {limit offset : Option Nat} {xs : List α} {x : α}
    (h : x ∈ window limit offset xs) : x ∈ xs := by
  unfold window at h
  dsimp only at h
  split at h
  · exact List.mem_of_mem_drop (List.mem_of_mem_take h)
  · exact List.mem_of_mem_drop h

/-- The rows that a query selects are rows of the database. -/
theorem holds_selected {q : SelectQuery} (h : f ∈ db.selected q) : db.Holds f := by
  obtain ⟨row, hrow, rfl⟩ := List.mem_map.1 h
  have hm := (db.sorted_perm q).mem_iff.1 (mem_of_mem_window hrow)
  exact List.forall_mem_singleton.2 (mem_rows_of_mem_filtered hm)

theorem exists_table_of_mem_rows {table : String} {row : Tuple} (h : row ∈ db.rows table) :
    ∃ t ∈ db.tables, row ∈ t.rows := by
  unfold rows at h
  cases ht : db.table? table with
  | none =>
    rw [ht] at h
    cases h
  | some t =>
    rw [ht] at h
    exact ⟨t, List.mem_of_find?_eq_some ht, h⟩

theorem rereads_get (hdb : db.Rereads) {table : String} {row : Tuple} (h : row ∈ db.rows table)
    (column : String) : (row.get column).untyped.Rereads := by
  obtain ⟨t, ht, hrow⟩ := exists_table_of_mem_rows h
  unfold Tuple.get
  cases hc : row.find? (·.1 = column) with
  | none => trivial
  | some cell =>
    have hcell := hdb t ht row hrow cell (List.mem_of_find?_eq_some hc)
    obtain ⟨_, v⟩ := cell
    cases v with
    | real d => exact hcell
    | _ => trivial

theorem rereads_value (hdb : db.Rereads) (hf : db.Holds f) (c : ColumnRef) :
    (f.value c).untyped.Rereads := by
  unfold Frame.value
  cases hb : f.binding? c.table with
  | none => trivial
  | some b => exact rereads_get hdb (hf b (List.mem_of_find?_eq_some hb)) c.column

mutual

theorem rereads_related (hdb : db.Rereads) : ∀ {f : Frame} {q : RelatedQuery}, db.Holds f →
    q.OfColumns → (db.related f q).Rereads
  | f, .mk many fields nested fault table aliasId join, hf, ⟨hfields, _, hnested⟩ => by
    have hobject (row : Tuple) (hrow : row ∈ db.joined f table aliasId join) :
        (Json.obj (fields.map (fun (key, v) =>
          (key, (Frame.member (⟨aliasId, table, row⟩ :: f) v).untyped)) ++
            db.relatedMembers (⟨aliasId, table, row⟩ :: f) nested)).Rereads := by
      have hholds := hf.push aliasId (mem_rows_of_mem_joined hrow)
      refine Json.membersReread_append.2 ⟨?_, rereads_relatedMembers hdb hholds hnested⟩
      clear hnested
      induction fields with
      | nil => trivial
      | cons member rest ih =>
        obtain ⟨key, v⟩ := member
        obtain ⟨c, rfl⟩ := hfields (key, v) (by simp)
        exact ⟨rereads_value hdb hholds c, ih fun m hm => hfields m (by simp [hm])⟩
    unfold related
    dsimp only
    split
    · refine Json.allReread_iff.2 ?_
      intro item hitem
      obtain ⟨row, hrow, rfl⟩ := List.mem_map.1 hitem
      exact hobject row hrow
    · cases hj : db.joined f table aliasId join with
      | nil => trivial
      | cons row rest => exact hobject row (by simp [hj])

theorem rereads_relatedMembers (hdb : db.Rereads) : ∀ {f : Frame}
    {members : List (String × RelatedQuery)}, db.Holds f → RelatedQuery.AllOfColumns members →
    Json.MembersReread (db.relatedMembers f members)
  | _, [], _, _ => trivial
  | _, (_, _) :: _, hf, ⟨hquery, hrest⟩ =>
    ⟨rereads_related hdb hf hquery, rereads_relatedMembers hdb hf hrest⟩

end

mutual

/-- **Objects that hold columns can be built.** -/
theorem relatedFault?_eq_none : ∀ {f : Frame} {q : RelatedQuery}, q.OfColumns →
    db.relatedFault? f q = none
  | f, .mk many fields nested fault table aliasId join, ⟨_, hfault, hnested⟩ => by
    unfold relatedFault?
    dsimp only
    rw [List.findSome?_eq_none_iff]
    intro row _
    rw [membersFault?_eq_none hnested, hfault]
    rfl

theorem membersFault?_eq_none : ∀ {f : Frame} {members : List (String × RelatedQuery)},
    RelatedQuery.AllOfColumns members → db.membersFault? f members = none
  | _, [], _ => rfl
  | _, (_, query) :: rest, ⟨hquery, hrest⟩ => by
    rw [membersFault?, relatedFault?_eq_none hquery, membersFault?_eq_none hrest]
    rfl

end

theorem answer_of_ofColumns {q : SelectQuery} (h : ∀ related ∈ q.related, related.OfColumns) :
    db.answer q = .ok (db.select q) := by
  have hfault : db.selectFault? q = none := by
    unfold selectFault?
    simp only [List.findSome?_eq_none_iff]
    intro f _ related hm
    exact relatedFault?_eq_none (h related hm)
  rw [answer, hfault]

end Database

end ResourceApi
