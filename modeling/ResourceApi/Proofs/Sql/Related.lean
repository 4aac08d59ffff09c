import ResourceApi.Proofs.Query.Inclusion
import ResourceApi.Proofs.Sql.Meaning
import ResourceApi.Sql.Reading

/-!
# Queries for related rows

**Theorem (`Rendering.perm_joined`).** The join condition that is rendered for an association ties
to a row exactly the rows that the association relates to it.

A query for related rows reads as it is written if no key of a record below its node holds an
apostrophe or a null character (`Rendering.isPlain_related`).
-/

namespace ResourceApi

namespace Rendering

variable {r : Registry} {db : Database} {schema : Schema}

/-! ## Related rows -/

/-- **A rendered join condition ties the related rows.** -/
theorem perm_joined {a : Association} {inner table n m : Nat} {condition : JoinCondition}
    (h : (join a inner table).run n = .ok (condition, m)) (hi : inner < n) (ht : table < inner)
    {f : Frame} {row : Tuple} (hf : f.Binds table a.source.tableName row) :
    (db.joined f a.target.tableName inner condition).Perm (a.relatedRows db row) := by
  have hrows : (db.rows a.target.tableName).filter (fun target =>
      db.joins (⟨inner, a.target.tableName, target⟩ :: f) condition) = a.relatedRows db row :=
    List.filter_congr fun target _ => joins_join h hi ht hf target
  rw [← hrows]
  unfold Database.joined
  cases condition with
  | equal left right => exact .refl _
  | through member link linkId targetKey sourceKey parent => exact List.mergeSort_perm _ _

/-! ## The parts of a query -/

/-- The members of records that hold fields. -/
def fieldMembers (inner : Nat) (names : List String) : List (String × MemberValue) :=
  names.map fun field => (field, .column ⟨inner, columnName field⟩)

theorem fieldMembers_of_mapM {inner n m : Nat} {names : List String}
    {fields : List (String × MemberValue)}
    (h : (names.mapM fun field => do
      let c ← column r schema field
      return (field, MemberValue.column ⟨inner, c.column⟩) : Rendering _).run n = .ok (fields, m)) :
    fields = fieldMembers inner names := by
  have hgrows (field : String) : Grows (do
      let c ← column r schema field
      return (field, MemberValue.column ⟨inner, c.column⟩)) :=
    (grows_lift _).bind fun _ => grows_pure _
  have hall : List.Forall₂ (fun field member =>
      member = (field, MemberValue.column ⟨inner, columnName field⟩)) names fields := by
    refine (mapM_run_eq_ok hgrows h).imp ?_
    rintro field member ⟨k, l, -, hmember⟩
    obtain ⟨c, k', hc, hmember⟩ := run_bind_eq_ok.1 hmember
    obtain ⟨rfl, -⟩ := run_pure_eq_ok.1 hmember
    rw [column_eq_ok (run_lift_eq_ok.1 hc).1]
  unfold fieldMembers
  simpa using map_eq_map_of_forall₂ (f := id) hall

/-- The parts of the query for an include node. -/
theorem related_eq_ok {relationship target : String} {selection : Selection}
    {nested : List IncludeNode} {table n m : Nat} {query : RelatedQuery}
    (h : (related r schema table (.mk relationship target selection nested)).run n =
      .ok (query, m)) :
    ∃ a members condition k l, r.association? schema relationship = some a ∧
      (relatedMembers r a.target n nested).run k = .ok (members, l) ∧ n < k ∧
      (join a n table).run l = .ok (condition, m) ∧ n < l ∧
      query = .mk (a.cardinality = .many) (fieldMembers n (selection.names a.target)) members none
        a.target.tableName n condition := by
  unfold related at h
  obtain ⟨a, k, hlift, h⟩ := run_bind_eq_ok.1 h
  obtain ⟨ha, rfl⟩ := run_lift_eq_ok.1 hlift
  obtain ⟨inner, k, hi, h⟩ := run_bind_eq_ok.1 h
  obtain ⟨rfl, rfl⟩ := run_aliasId_eq_ok.1 hi
  obtain ⟨fields, k, hfields, h⟩ := run_bind_eq_ok.1 h
  obtain ⟨members, l, hmembers, h⟩ := run_bind_eq_ok.1 h
  obtain ⟨condition, l', hjoin, h⟩ := run_bind_eq_ok.1 h
  obtain ⟨rfl, rfl⟩ := run_pure_eq_ok.1 h
  have hk := grows_mapM (fun field => (grows_lift _).bind fun _ => grows_pure _) _ hfields
  have hl := grows_relatedMembers _ _ _ hmembers
  exact ⟨a, members, condition, k, l, association_eq_ok.1 ha, hmembers, by omega, hjoin, by omega,
    by rw [fieldMembers_of_mapM hfields]⟩

/-- The members for several include nodes. -/
theorem relatedMembers_eq_ok {node : IncludeNode} {rest : List IncludeNode} {table n m : Nat}
    {members : List (String × RelatedQuery)}
    (h : (relatedMembers r schema table (node :: rest)).run n = .ok (members, m)) :
    ∃ query others k, (related r schema table node).run n = .ok (query, k) ∧
      (relatedMembers r schema table rest).run k = .ok (others, m) ∧ n ≤ k ∧
      members = (node.relationship, query) :: others := by
  unfold relatedMembers at h
  obtain ⟨query, k, hquery, h⟩ := run_bind_eq_ok.1 h
  obtain ⟨others, l, hothers, h⟩ := run_bind_eq_ok.1 h
  obtain ⟨rfl, rfl⟩ := run_pure_eq_ok.1 h
  exact ⟨query, others, k, hquery, hothers, grows_related _ _ _ hquery, rfl⟩

/-! ## Keys -/

mutual

/-- **A query reads as it is written if the keys of its records do.** -/
theorem isPlain_related (hr : r.Coherent) : ∀ {node : IncludeNode} {schema : Schema}
    {table n m : Nat} {query : RelatedQuery}, node.Resolves r schema →
    (∀ key ∈ node.recordKeys r, RelatedQuery.isPlainKey key = true) →
    (related r schema table node).run n = .ok (query, m) → query.isPlain = true
  | .mk relationship target selection nested, schema, table, n, m, query, hp, hkeys, h => by
    obtain ⟨a, members, condition, k, l, ha, hmembers, -, -, -, rfl⟩ := related_eq_ok h
    obtain ⟨b, hb, htarget, -, hnested⟩ := hp
    obtain rfl := Option.some.inj (hb.symm.trans ha)
    have hschema : r.schema? target = some b.target := by
      rw [htarget]
      exact hr.schema?_fullName (hr.target b (Registry.mem_of_association? ha).1)
    unfold IncludeNode.recordKeys at hkeys
    rw [hschema] at hkeys
    unfold RelatedQuery.isPlain
    rw [Bool.and_eq_true, List.all_eq_true]
    refine ⟨fun member hm => ?_, ?_⟩
    · obtain ⟨field, hfield, rfl⟩ := List.mem_map.1 hm
      exact hkeys field (List.mem_append_left _ hfield)
    · exact arePlain_relatedMembers hr hnested
        (fun key hk => hkeys key (List.mem_append_right _ hk)) hmembers

theorem arePlain_relatedMembers (hr : r.Coherent) : ∀ {nodes : List IncludeNode} {schema : Schema}
    {table n m : Nat} {members : List (String × RelatedQuery)},
    IncludeNode.AllResolve r schema nodes →
    (∀ key ∈ IncludeNode.allRecordKeys r nodes, RelatedQuery.isPlainKey key = true) →
    (relatedMembers r schema table nodes).run n = .ok (members, m) →
    RelatedQuery.arePlain members = true
  | [], schema, table, n, m, members, _, _, h => by
    unfold relatedMembers at h
    obtain ⟨rfl, -⟩ := run_pure_eq_ok.1 h
    rfl
  | node :: rest, schema, table, n, m, members, ⟨hnode, hrest⟩, hkeys, h => by
    obtain ⟨query, others, k, hquery, hothers, -, rfl⟩ := relatedMembers_eq_ok h
    unfold IncludeNode.allRecordKeys at hkeys
    simp only [List.mem_append, List.mem_cons] at hkeys
    unfold RelatedQuery.arePlain
    rw [Bool.and_eq_true, Bool.and_eq_true]
    exact ⟨⟨hkeys _ (.inl (.inl rfl)),
      isPlain_related hr hnode (fun key hk => hkeys key (.inl (.inr hk))) hquery⟩,
      arePlain_relatedMembers hr hrest (fun key hk => hkeys key (.inr hk)) hothers⟩

end

end Rendering

end ResourceApi
