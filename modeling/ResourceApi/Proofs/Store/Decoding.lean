import ResourceApi.Proofs.Query.Meaning
import ResourceApi.Proofs.Query.Resolution
import ResourceApi.Proofs.Sql.Rendering
import ResourceApi.Store.Decode

/-!
# Decoded rows

**Theorem (`Registry.shows_decode`).** The row that is decoded from an answer to a plan's query
shows the stored row: every selected field has its stored value, and every other key is that of an
include node.

No include node has the name of a field, since relationships and fields of a schema are named apart.
So what related rows come to on their way through JSON text cannot hide a field.
-/

namespace ResourceApi

namespace Object

/-! ## Objects from lists -/

theorem mem_keys_iff {o : Object} {key : String} : key ∈ o.keys ↔ (o.get? key).isSome = true := by
  induction o with
  | nil => simp [keys, get?]
  | cons m rest ih =>
    obtain ⟨k, v⟩ := m
    by_cases hk : k = key
    · simp [keys, get?, hk]
    · simpa [keys, get?, hk, Ne.symm hk] using ih

theorem mem_keys_insert {key k : String} {value : Json} {o : Object}
    (h : k ∈ (o.insert key value).keys) : k = key ∨ k ∈ o.keys := by
  induction o with
  | nil => exact .inl (by simpa [insert, keys] using h)
  | cons m rest ih =>
    obtain ⟨k', v⟩ := m
    unfold insert at h
    split at h
    · rename_i he
      rcases List.mem_cons.1 h with rfl | h
      · exact .inl rfl
      · exact .inr (List.mem_cons_of_mem _ h)
    · split at h
      · rcases List.mem_cons.1 h with rfl | h
        · exact .inl rfl
        · exact .inr h
      · rcases List.mem_cons.1 h with rfl | h
        · exact .inr List.mem_cons_self
        · rcases ih h with rfl | h
          · exact .inl rfl
          · exact .inr (List.mem_cons_of_mem _ h)

theorem ofList_eq_foldl (members : List (String × Json)) :
    ofList members = members.foldl (fun o m => insert m.1 m.2 o) [] := rfl

/-- An object has no keys but those of its members. -/
theorem mem_keys_ofList {members : List (String × Json)} {key : String}
    (h : key ∈ (ofList members).keys) : key ∈ members.map (·.1) := by
  rw [ofList_eq_foldl] at h
  refine List.foldlRecOn members _ (motive := fun o : Object =>
    key ∈ o.keys → key ∈ members.map (·.1)) ?_ ?_ h
  · intro h
    cases h
  · intro o ih m hm h
    rcases mem_keys_insert h with rfl | h
    · exact List.mem_map_of_mem hm
    · exact ih h

/-- A key that all of its members give one value has that value. -/
theorem get?_ofList {members : List (String × Json)} {key : String} {value : Json}
    (hm : (key, value) ∈ members) (hall : ∀ v, (key, v) ∈ members → v = value) :
    (ofList members).get? key = some value := by
  have go (members : List (String × Json)) (o : Object)
      (hall : ∀ v, (key, v) ∈ members → v = value)
      (h : (key, value) ∈ members ∨ o.get? key = some value) :
      (members.foldl (fun o m => insert m.1 m.2 o) o).get? key = some value := by
    induction members generalizing o with
    | nil =>
      rcases h with h | h
      · cases h
      · exact h
    | cons m rest ih =>
      obtain ⟨k, v⟩ := m
      refine ih _ (fun w hw => hall w (List.mem_cons_of_mem _ hw)) ?_
      by_cases hk : k = key
      · subst hk
        rw [hall v List.mem_cons_self]
        exact .inr (get?_insert_self k value o)
      · rcases h with h | h
        · rcases List.mem_cons.1 h with h | h
          · exact absurd (congrArg Prod.fst h).symm hk
          · exact .inl h
        · exact .inr ((get?_insert_of_ne hk v o).trans h)
  exact go members [] hall (.inl hm)

theorem isSome_get?_insert {key : String} {o : Object} (h : (o.get? key).isSome) (k : String)
    (value : Json) : ((o.insert k value).get? key).isSome := by
  by_cases hk : k = key
  · rw [hk, get?_insert_self]
    rfl
  · rwa [get?_insert_of_ne hk]

/-- Every key of its members is a key of the object. -/
theorem isSome_get?_ofList {members : List (String × Json)} {key : String}
    (hm : key ∈ members.map (·.1)) : ((ofList members).get? key).isSome := by
  have go (members : List (String × Json)) (o : Object)
      (h : key ∈ members.map (·.1) ∨ (o.get? key).isSome) :
      ((members.foldl (fun o m => insert m.1 m.2 o) o).get? key).isSome := by
    induction members generalizing o with
    | nil => simpa using h
    | cons m rest ih =>
      refine ih _ ?_
      rcases h with h | h
      · rcases List.mem_cons.1 h with rfl | h
        · rw [get?_insert_self]
          exact .inr rfl
        · exact .inl h
      · exact .inr (isSome_get?_insert h m.1 m.2)
  exact go members [] (.inl hm)

end Object

/-! ## Answers to plans -/

namespace Registry

variable {r : Registry} {schema : Schema} {plan : Plan}

theorem relationship_decodeRelated {node : IncludeNode} {cardinality : Cardinality} {value : Json}
    {member : String × Json} (h : r.decodeRelated node cardinality value = .ok member) :
    member.1 = node.relationship := by
  unfold decodeRelated at h
  obtain ⟨json, -, h⟩ := bind_eq_ok.1 h
  obtain rfl := pure_eq_ok.1 h
  rfl

/-- The parts of a decoded row: its fields, and members for its include nodes. -/
theorem decode_eq_ok {value : String → SqlValue} {related : List Json} {object : Object}
    (h : r.decode (plan.outputs r schema)
      ((plan.attributes.names schema).map value, related) = .ok object) :
    ∃ members : List (String × Json),
      List.Forall₂ (fun x member => r.decodeRelated x.1
        ((r.association? schema x.1.relationship).elim .one (·.cardinality)) x.2 = .ok member)
        (plan.includes.zip related) members ∧
      object = Object.ofList ((plan.attributes.names schema).map (fun field =>
        (field, (value field).toJson ((r.column? schema field).elim .text (·.type)))) ++
          members) := by
  unfold decode at h
  obtain ⟨members, hm, h⟩ := bind_eq_ok.1 h
  refine ⟨members, ?_, ?_⟩
  · have hall := mapM_eq_ok.1 hm
    simp only [Plan.outputs, List.filterMap_append, List.filterMap_map, Function.comp_def,
      List.filterMap_none, List.filterMap_eq_map', List.nil_append, List.zip_map_left,
      List.forall₂_map_left_iff] at hall
    exact hall
  · rw [← pure_eq_ok.1 h]
    simp [Plan.outputs, List.filterMap_map, Function.comp_def, List.zip_map']

/-- **A decoded row shows the stored one.** -/
theorem shows_decode (hr : r.Coherent) (hs : schema ∈ r.schemas) (hp : plan.Reads r schema)
    {row : Tuple} {related : List Json} {object : Object}
    (h : r.decode (plan.outputs r schema)
      ((plan.attributes.names schema).map fun field => row.get (columnName field), related) =
        .ok object) : plan.Shows r schema row object := by
  obtain ⟨members, hmembers, rfl⟩ := decode_eq_ok h
  constructor
  · intro field hfield
    refine Object.get?_ofList (List.mem_append_left _ (List.mem_map_of_mem hfield)) fun v hv => ?_
    rcases List.mem_append.1 hv with hv | hv
    · obtain ⟨other, -, he⟩ := List.mem_map.1 hv
      cases he
      rfl
    · obtain ⟨⟨node, json⟩, hx, hd⟩ := exists_of_forall₂ hmembers hv
      have hn := (List.of_mem_zip hx).1
      have he := relationship_decodeRelated hd
      have hno := (IncludeNode.allResolve_iff.1 hp.includes node hn).hasField_relationship hr hs
      rw [← he, hp.attributes field hfield] at hno
      cases hno
  · intro key hkey
    have hm := Object.mem_keys_ofList hkey
    rw [List.map_append, List.map_map] at hm
    rcases List.mem_append.1 hm with hm | hm
    · left
      simpa [Function.comp_def] using hm
    · obtain ⟨member, hmem, rfl⟩ := List.mem_map.1 hm
      obtain ⟨⟨node, json⟩, hx, hd⟩ := exists_of_forall₂ hmembers hmem
      exact .inr (List.mem_map.2
        ⟨node, (List.of_mem_zip hx).1, (relationship_decodeRelated hd).symm⟩)

end Registry

end ResourceApi
