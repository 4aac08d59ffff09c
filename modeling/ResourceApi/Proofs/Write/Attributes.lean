import Mathlib.Data.List.Perm.Subperm
import Mathlib.Data.String.Basic
import ResourceApi.Proofs.Result
import ResourceApi.Proofs.Store.Decoding
import ResourceApi.Write.Payload

/-!
# Attributes of payloads

**Theorem (`Payload.attributes_of_ofDocument`).** The attributes of a payload that is read from a
document are declared attributes of its schema, each at most once. Names that are not declared are
faults, defaults are those of declared attributes, and an object has no key twice.

**Theorem (`Payload.declared_of_ofDocument`).** So are the attributes of the rows that are created
for its relationships (`Payload.Declared`). If the document names no relationship twice, the payload
does not (`Payload.nodup_of_ofDocument`).
-/

namespace ResourceApi

namespace Object

/-! ## Keys in order -/

/-- The keys stand in their order, so that none occurs twice. -/
def Ordered (o : Object) : Prop := o.keys.Pairwise (· < ·)

theorem ordered_insert {o : Object} (h : o.Ordered) (key : String) (value : Json) :
    (o.insert key value).Ordered := by
  induction o with
  | nil => exact List.pairwise_singleton _ key
  | cons m rest ih =>
    obtain ⟨k, v⟩ := m
    obtain ⟨hk, hrest⟩ := List.pairwise_cons.1 h
    unfold insert
    split
    · rename_i he
      exact List.pairwise_cons.2 ⟨he ▸ hk, hrest⟩
    · rename_i hne
      split
      · rename_i hlt
        refine List.pairwise_cons.2 ⟨List.forall_mem_cons.2 ⟨hlt, fun other ho => ?_⟩, h⟩
        exact lt_trans hlt (hk other ho)
      · rename_i hge
        refine List.pairwise_cons.2 ⟨fun other ho => ?_, ih hrest⟩
        rcases mem_keys_insert ho with rfl | ho
        · exact lt_of_le_of_ne (not_lt.1 hge) (Ne.symm hne)
        · exact hk other ho

theorem ordered_ofList (members : List (String × Json)) : (ofList members).Ordered :=
  List.foldlRecOn members _ (motive := Ordered) List.Pairwise.nil
    fun _ h m _ => ordered_insert h m.1 m.2

theorem Ordered.nodup {o : Object} (h : o.Ordered) : o.keys.Nodup :=
  h.imp fun hlt => ne_of_lt hlt

end Object

/-! ## Read attributes -/

namespace Document

variable {r : Registry} {schema : Schema} {mode : WriteMode} {path : List String}

theorem declared_of_coerceMember {member result : String × Json}
    (h : coerceMember schema path member = .ok result) : result.1 ∈ schema.attributeNames := by
  obtain ⟨name, value⟩ := member
  unfold coerceMember at h
  dsimp only at h
  split at h
  · cases h
  rename_i a ha
  have hname : a.name = name := by simpa using List.find?_some ha
  have hm : name ∈ schema.attributeNames :=
    List.mem_map.2 ⟨a, List.mem_of_find?_eq_some ha, hname⟩
  split at h
  · split at h <;> cases h
    exact hm
  · split at h <;> cases h
    exact hm

theorem name_of_absentMember {a : Attribute} {result : String × Json}
    (h : absentMember path a = .ok (some result)) : result.1 = a.name := by
  unfold absentMember at h
  split at h
  · cases h
    rfl
  · split at h <;> cases h

/-- The row of given attributes holds declared attributes only. -/
theorem declared_of_coerceAttributes {given : Object} {key : String}
    (h : key ∈ (coerceAttributes schema mode path given).1.keys) :
    key ∈ schema.attributeNames := by
  have hm := Object.mem_keys_ofList h
  rw [List.map_append, List.mem_append] at hm
  rcases hm with hm | hm
  · obtain ⟨member, hmember, rfl⟩ := List.mem_map.1 hm
    obtain ⟨_, -, hcoerced⟩ := List.mem_map.1 (mem_of_mem_sortOut hmember)
    exact declared_of_coerceMember hcoerced
  · obtain ⟨member, hmember, rfl⟩ := List.mem_map.1 hm
    obtain ⟨_, hdefault, rfl⟩ := List.mem_filterMap.1 hmember
    obtain ⟨a, ha, habsent⟩ := List.mem_map.1 (mem_of_mem_sortOut hdefault)
    rw [name_of_absentMember habsent]
    refine List.mem_map_of_mem ?_
    cases mode with
    | create => exact (List.mem_filter.1 ha).1
    | update => cases ha

end Document

/-- The row holds declared attributes, each at most once. -/
structure Schema.Declares (schema : Schema) (row : Object) : Prop where
  names : row.keys ⊆ schema.attributeNames
  nodup : row.keys.Nodup

theorem Schema.Declares.length_le {schema : Schema} {row : Object} (h : schema.Declares row) :
    row.length ≤ schema.attributes.length := by
  have hle := (List.subperm_of_subset h.nodup h.names).length_le
  rwa [Object.keys, Schema.attributeNames, List.length_map, List.length_map] at hle

theorem Document.declares_coerceAttributes (schema : Schema) (mode : WriteMode)
    (path : List String) (given : Object) :
    schema.Declares (coerceAttributes schema mode path given).1 :=
  ⟨fun _ => declared_of_coerceAttributes, (Object.ordered_ofList _).nodup⟩

/-- The payload sets declared attributes, in its row and in the rows that are created for its
relationships. -/
structure Payload.Declared (r : Registry) (schema : Schema) (payload : Payload) : Prop where
  attributes : schema.Declares payload.attributes
  targets : ∀ name link a, (name, link) ∈ payload.relationships →
    r.association? schema name = some a → ∀ row, .create row ∈ link.targets → a.target.Declares row

/-! ## Read relationships -/

namespace Document

variable {r : Registry} {schema target : Schema} {mode : WriteMode} {path : List String}
  {body element linkage : Json} {a : Association} {link : Link} {row : Object}

theorem declares_of_readTarget {belongsTo : Bool}
    (h : (readTarget target belongsTo path element).1 = some (.create row)) :
    target.Declares row := by
  unfold readTarget at h
  split at h
  · extract_lets wrongType at h
    split at h
    · cases h
    · split at h
      · split at h
        · rename_i given _
          split at h
          · cases h
          · obtain rfl := LinkTarget.create.inj (Option.some.inj h)
            exact declares_coerceAttributes _ _ _ given
        · cases h
      · split at h <;> cases h
  · cases h

theorem declares_of_readLink (h : (readLink a linkage).1 = some link)
    (hrow : .create row ∈ link.targets) : a.target.Declares row := by
  unfold readLink at h
  dsimp only at h
  split at h
  · cases h
    cases hrow
  · cases h
    obtain ⟨_, hm, he⟩ := List.mem_filterMap.1 hrow
    obtain ⟨_, -, rfl⟩ := List.mem_map.1 hm
    exact declares_of_readTarget he
  · obtain ⟨t, ht, rfl⟩ := Option.map_eq_some_iff.1 h
    obtain rfl : .create row = t := by simpa [Link.targets] using hrow
    exact declares_of_readTarget ht

theorem readRelationship_eq_some {member : String × Json} {name : String}
    (h : (readRelationship r schema member).1 = some (name, link)) : name = member.1 ∧
      ∃ a, r.association? schema name = some a ∧
        (readLink a (member.2.getD "data")).1 = some link := by
  unfold readRelationship at h
  split at h
  · cases h
  · rename_i a ha
    obtain ⟨_, hlink, he⟩ := Option.map_eq_some_iff.1 h
    obtain ⟨rfl, rfl⟩ := Prod.mk.inj he
    exact ⟨rfl, a, ha, hlink⟩

/-- Relationships are read in the order of the document. -/
theorem sublist_readRelationship (members : Object) :
    (((members.map (readRelationship r schema)).filterMap (·.1)).map (·.1)).Sublist
      members.keys := by
  induction members with
  | nil => exact .slnil
  | cons member rest ih =>
    rw [List.map_cons, List.filterMap_cons]
    split
    · exact ih.cons _
    · rename_i relationship hread
      rw [List.map_cons, (readRelationship_eq_some hread).1]
      exact ih.cons_cons _

end Document

/-! ## Answers to documents -/

section

variable {r : Registry} {schema : Schema} {mode : WriteMode} {body : Json} {payload : Payload}

namespace Document

theorem checkStructure_eq_ok_iff :
    checkStructure r schema body = .ok () ↔ structureFaults r schema body = [] := by
  unfold checkStructure
  split
  · rename_i hnone
    exact iff_of_true rfl hnone
  · rename_i hsome
    exact iff_of_false nofun hsome

theorem checkStructure_eq_error_iff {e : Rejection} :
    checkStructure r schema body = .error e ↔ structureFaults r schema body ≠ [] ∧
      e = ⟨.document, (structureFaults r schema body).map (·.toApiError)⟩ := by
  unfold checkStructure
  split
  · rename_i hnone
    exact iff_of_false nofun fun h => h.1 hnone
  · rename_i hsome
    constructor
    · rintro h
      exact ⟨hsome, (Except.error.inj h).symm⟩
    · rintro ⟨-, rfl⟩
      rfl

end Document

namespace Payload

/-- A document is read if nothing is wrong with its structure and with what is read of it. -/
theorem ofDocument_eq_ok_iff : ofDocument r schema mode body = .ok payload ↔
    Document.checkStructure r schema body = .ok () ∧
      Document.readPayload r schema mode body = (payload, []) := by
  unfold ofDocument
  rw [bind_eq_ok]
  constructor
  · rintro ⟨⟨⟩, hstructure, h⟩
    split at h
    · rename_i read hread
      obtain rfl := pure_eq_ok.1 h
      exact ⟨hstructure, hread⟩
    · cases h
  · rintro ⟨hstructure, hread⟩
    refine ⟨(), hstructure, ?_⟩
    rw [hread]
    rfl

theorem ofDocument_eq_error_iff {e : Rejection} :
    ofDocument r schema mode body = .error e ↔ Document.checkStructure r schema body = .error e ∨
      Document.structureFaults r schema body = [] ∧
        (Document.readPayload r schema mode body).2 ≠ [] ∧
          e = ⟨.payload, (Document.readPayload r schema mode body).2.map (·.toApiError)⟩ := by
  unfold ofDocument
  rw [bind_eq_error]
  refine or_congr_right ?_
  constructor
  · rintro ⟨⟨⟩, hstructure, h⟩
    refine ⟨Document.checkStructure_eq_ok_iff.1 hstructure, ?_⟩
    split at h
    · cases h
    · rename_i hne hread
      rw [hread]
      exact ⟨hne, (Except.error.inj h).symm⟩
  · rintro ⟨hstructure, hne, rfl⟩
    refine ⟨(), Document.checkStructure_eq_ok_iff.2 hstructure, ?_⟩
    split
    · rename_i payload hread
      exact absurd (congrArg Prod.snd hread) hne
    · rename_i hread
      rw [hread]
      rfl

theorem eq_of_ofDocument (h : ofDocument r schema mode body = .ok payload) :
    payload = (Document.readPayload r schema mode body).1 :=
  (congrArg Prod.fst (ofDocument_eq_ok_iff.1 h).2).symm

/-- **Documents give declared attributes, each at most once.** -/
theorem attributes_of_ofDocument (h : ofDocument r schema mode body = .ok payload) :
    schema.Declares payload.attributes := by
  rw [eq_of_ofDocument h]
  exact Document.declares_coerceAttributes _ _ _ _

/-- **Documents set declared attributes only.** -/
theorem declared_of_ofDocument (h : ofDocument r schema mode body = .ok payload) :
    payload.Declared r schema := by
  refine ⟨attributes_of_ofDocument h, fun name link a hm ha row hrow => ?_⟩
  rw [eq_of_ofDocument h] at hm
  obtain ⟨_, hread, he⟩ := List.mem_filterMap.1 hm
  obtain ⟨member, -, rfl⟩ := List.mem_map.1 hread
  obtain ⟨-, b, hb, hlink⟩ := Document.readRelationship_eq_some he
  obtain rfl := Option.some.inj (hb.symm.trans ha)
  exact Document.declares_of_readLink hlink hrow

/-- Relationships that a document names once are read once. -/
theorem nodup_of_ofDocument (h : ofDocument r schema mode body = .ok payload)
    (hn : (((body.getD "data").getD "relationships").asObject?.getD []).keys.Nodup) :
    (payload.relationships.map (·.1)).Nodup := by
  rw [eq_of_ofDocument h]
  exact hn.sublist (Document.sublist_readRelationship _)

end Payload

end

end ResourceApi
