import ResourceApi.Proofs.Sql.Rows

/-!
# Distinct keys

Rows are *distinct* in some columns when no two of them have the same values there, where null is
never the same (`Table.Distinct`). A table whose rows are distinct in each of its keys is *unique*
(`Table.Unique`).

**Theorems (`Table.Unique.insert`, `Table.Unique.update`, `Database.unique_deleteRows`).** Tables
stay unique: every row that is written is checked against all others, and a deletion can only make
keys null.
-/

namespace ResourceApi

namespace Table

variable {t t' : Table} {row values : Tuple} {key : List String} {rows : List Tuple}

/-- No two of the rows have the same key. -/
def Distinct (key : List String) (rows : List Tuple) : Prop :=
  rows.Pairwise fun a b => sameKey key a b = false

/-- No two rows of the table have the same key. -/
def Unique (t : Table) : Prop := ∀ key ∈ t.uniqueKeys, Distinct key t.rows

theorem sameKey_comm (key : List String) (a b : Tuple) : sameKey key a b = sameKey key b a := by
  unfold sameKey
  congr 1
  funext c
  exact SqlValue.equals_comm _ _

theorem sameKey_singleton (column : String) (a b : Tuple) :
    sameKey [column] a b = (a.get column).equals (b.get column) := by
  simp [sameKey]

theorem Distinct.perm {rows' : List Tuple} (h : Distinct key rows) (hp : rows'.Perm rows) :
    Distinct key rows' :=
  (hp.pairwise_iff fun hab => (sameKey_comm key _ _).trans hab).2 h

/-- Of distinct rows, no two have the same key. -/
theorem Distinct.eq (h : Distinct key rows) {a b : Tuple} (ha : a ∈ rows) (hb : b ∈ rows)
    (hs : sameKey key a b = true) : a = b := by
  by_contra hne
  have : Std.Symm fun a b => sameKey key a b = false :=
    ⟨fun _ _ hab => (sameKey_comm key _ _).trans hab⟩
  rw [List.Pairwise.forall h ha hb hne] at hs
  cases hs

theorem distinct_cons : Distinct key (row :: rows) ↔
    (∀ other ∈ rows, sameKey key row other = false) ∧ Distinct key rows :=
  List.pairwise_cons

/-- The value of a column is replaced by null or stays, so no two keys become the same. -/
theorem Distinct.released {f : Tuple → Option Tuple} (h : Distinct key rows)
    (hf : ∀ row ∈ rows, ∀ row', f row = some row' → Database.Released t row row') :
    Distinct key (rows.filterMap f) := by
  have hsame {a a' b b' : Tuple} (ha : Database.Released t a a') (hb : Database.Released t b b')
      (hs : sameKey key a' b' = true) : sameKey key a b = true := by
    unfold sameKey at hs ⊢
    rw [List.all_eq_true] at hs ⊢
    intro c hc
    obtain ⟨hanull, hbnull, -⟩ := SqlValue.equals_iff.1 (hs c hc)
    rw [← (ha c).resolve_right fun hn => hanull hn.1, ← (hb c).resolve_right fun hn => hbnull hn.1]
    exact hs c hc
  refine List.pairwise_filterMap.2 ?_
  refine List.Pairwise.imp_of_mem ?_ h
  intro a b ha hb hab a' ha' b' hb'
  rw [Bool.eq_false_iff] at hab ⊢
  exact fun hs => hab (hsame (hf a ha a' ha') (hf b hb b' hb') hs)

/-! ## Written rows -/

/-- An accepted row differs from the others in each key. -/
theorem ne_of_check {others : List Tuple} (h : t.check others row = .ok ()) :
    ∀ key ∈ t.uniqueKeys, ∀ other ∈ others, sameKey key row other = false := by
  unfold check at h
  split at h
  · cases h
  split at h
  · cases h
  split at h
  · cases h
  · rename_i hnone
    intro key hkey other ho
    have hany := List.find?_eq_none.1 hnone key hkey
    rw [Bool.not_eq_true, List.any_eq_false] at hany
    exact Bool.eq_false_iff.2 (hany other ho)

theorem uniqueKeys_of_definition (hd : t'.definition = t.definition) :
    t'.uniqueKeys = t.uniqueKeys := by
  simp only [uniqueKeys, assignedKey?, hd]

theorem unique_of_rows (hd : t'.definition = t.definition)
    (h : ∀ key ∈ t.uniqueKeys, Distinct key t'.rows) : t'.Unique := by
  unfold Unique
  rwa [uniqueKeys_of_definition hd]

namespace Unique

variable (h : t.Unique)
include h

theorem rememberKey (row : Tuple) : (t.rememberKey row).Unique := by
  refine unique_of_rows (t.definition_rememberKey row) ?_
  rwa [rows_rememberKey]

theorem add (hc : t.check t.rows row = .ok ()) : (t.add row).Unique := by
  refine unique_of_rows (t.definition_add row) fun key hkey => ?_
  exact (distinct_cons.2 ⟨ne_of_check hc key hkey, h key hkey⟩).perm (t.rows_add row)

theorem insert (hi : t.insert values = .ok (t', row)) : t'.Unique := by
  obtain ⟨-, hcheck, rfl⟩ := insert_eq_ok hi
  exact h.add hcheck

omit h in
theorem insertEach (h : t.Unique) (hi : t.insertEach rows = .ok t') : t'.Unique := by
  unfold Table.insertEach at hi
  induction rows generalizing t with
  | nil =>
    obtain rfl := pure_eq_ok.1 hi
    exact h
  | cons values rest ih =>
    rw [List.foldlM_cons] at hi
    obtain ⟨next, hnext, hi⟩ := bind_eq_ok.1 hi
    obtain ⟨row, -, ⟨hcheck, rfl⟩ | ⟨-, rfl⟩⟩ := insertOrSkip_eq_ok hnext
    · exact ih (h.add hcheck) hi
    · exact ih (h.rememberKey row) hi

end Unique

/-- Every changed row is checked against the rows before it and those still to come. -/
theorem distinct_assignEach {picked : Tuple → Bool} {done result : List Tuple}
    (hkey : key ∈ t.uniqueKeys) (h : Distinct key (done ++ rows))
    (hu : t.assignEach picked values done rows = .ok result) : Distinct key result := by
  induction rows generalizing done with
  | nil =>
    obtain rfl := Except.ok.inj hu
    rwa [List.append_nil] at h
  | cons row rest ih =>
    unfold assignEach at hu
    split at hu
    · obtain ⟨⟨⟩, -, hu⟩ := bind_eq_ok.1 hu
      obtain ⟨⟨⟩, hcheck, hu⟩ := bind_eq_ok.1 hu
      refine ih ?_ hu
      rw [List.append_assoc]
      refine Distinct.perm ?_ List.perm_middle
      refine distinct_cons.2 ⟨ne_of_check hcheck key hkey, ?_⟩
      exact List.Pairwise.sublist ((List.sublist_cons_self row rest).append_left done) h
    · refine ih ?_ hu
      rwa [List.append_assoc]

theorem Unique.update {picked : Tuple → Bool} (h : t.Unique)
    (hu : t.update picked values = .ok t') : t'.Unique := by
  unfold Table.update at hu
  obtain ⟨rows, hrows, hu⟩ := bind_eq_ok.1 hu
  obtain rfl := pure_eq_ok.1 hu
  refine unique_of_rows (t := t) rfl fun key hkey => ?_
  have hstart : Distinct key ([] ++ t.rows) := h key hkey
  exact (distinct_assignEach hkey hstart hrows).perm (t.arrange_perm rows)

end Table

namespace Database

variable {db : Database} {table : String} {picked : Tuple → Bool}

theorem distinct_survivors {key : List String} {t : Table} (h : Table.Distinct key t.rows) :
    Table.Distinct key (db.survivors table picked t) := by
  have hkept : Table.Distinct key (t.rows.filter fun row => !(t.name = table && picked row)) :=
    h.sublist List.filter_sublist
  exact hkept.released fun _ _ _ hrelease => (released_of_release hrelease).1

/-- **A deletion leaves keys distinct.** -/
theorem unique_deleteRows (hdb : ∀ u ∈ db.tables, u.Unique) :
    ∀ u ∈ (db.deleteRows table picked).1.tables, u.Unique := by
  intro u hu
  rw [tables_deleteRows] at hu
  obtain ⟨t, ht, rfl⟩ := List.mem_map.1 hu
  exact Table.unique_of_rows (t := t) rfl fun key hkey => distinct_survivors (hdb t ht key hkey)

end Database

end ResourceApi
