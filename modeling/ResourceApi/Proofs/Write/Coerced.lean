import ResourceApi.Proofs.Sql.Values
import ResourceApi.Proofs.Write.Attributes

/-!
# Coerced documents

What becomes of the attributes of a document that creates a row.

**Theorems (`Document.mem_coerceAttributes`, `Document.notMem_coerceAttributes`).** Each member that
the document gives is in the payload as it was coerced. Attributes that it does not give are in the
payload only if they have a default.

Whatever a member is coerced to is read back from the column of its attribute
(`Document.exists_readsBack_of_coerceMember`).
-/

namespace ResourceApi

variable {r : Registry} {schema : Schema} {a : Attribute}

theorem Object.mem_of_get? {o : Object} {key : String} {value : Json}
    (h : o.get? key = some value) : (key, value) ∈ o := by
  induction o with
  | nil => cases h
  | cons m rest ih =>
    obtain ⟨k, v⟩ := m
    unfold get? at h
    split at h
    · rename_i hk
      obtain rfl := Option.some.inj h
      exact hk ▸ List.mem_cons_self
    · exact List.mem_cons_of_mem _ (ih h)

/-! ## Members of a document -/

namespace Document

variable {path : List String} {given : Object} {member result : String × Json}

theorem name_of_coerceMember (h : coerceMember schema path member = .ok result) :
    result.1 = member.1 := by
  obtain ⟨name, value⟩ := member
  unfold coerceMember at h
  dsimp only at h
  split at h
  · cases h
  · split at h
    · split at h <;> cases h
      rfl
    · split at h <;> cases h
      rfl

/-- What a value of a document is coerced to is read back. -/
theorem exists_readsBack_of_coerceMember (hr : member.2.IsRanged)
    (h : coerceMember schema path member = .ok result) :
    ∃ a, schema.attribute? member.1 = some a ∧ result.2.ReadsBack (a.readBack result.2) := by
  obtain ⟨name, value⟩ := member
  unfold coerceMember at h
  dsimp only at h
  split at h
  · cases h
  · rename_i a ha
    refine ⟨a, ha, ?_⟩
    split at h
    · split at h <;> cases h
      exact .inl a.readBack_null
    · split at h
      · rename_i coerced hcoerce
        cases h
        exact Attribute.readsBack_of_coerce hr hcoerce
      · cases h

/-- A given member of a name that is given once is in the row as it was coerced. -/
theorem mem_coerceAttributes (hn : given.keys.Nodup) (hm : member ∈ given)
    (hfaults : (coerceAttributes schema .create path given).2 = []) :
    ∃ result, coerceMember schema path member = .ok result ∧
      result ∈ (coerceAttributes schema .create path given).1 := by
  have hall := sortOut_eq_nil_iff.1 (List.append_eq_nil_iff.1 hfaults).1
  obtain ⟨result, hresult⟩ := hall _ (List.mem_map_of_mem hm)
  have hname := name_of_coerceMember hresult
  refine ⟨result, hresult, Object.mem_of_get? (Object.get?_ofList
    (List.mem_append_left _ (mem_sortOut_iff.2 (hresult ▸ List.mem_map_of_mem hm))) ?_)⟩
  intro value hvalue
  rcases List.mem_append.1 hvalue with hvalue | hvalue
  · obtain ⟨other, ho, hcoerced⟩ := List.mem_map.1 (mem_sortOut_iff.1 hvalue)
    obtain rfl : other = member := by
      refine List.inj_on_of_nodup_map hn ho hm ?_
      rw [← hname, ← name_of_coerceMember hcoerced]
    rw [hcoerced] at hresult
    exact congrArg Prod.snd (Except.ok.inj hresult)
  · -- defaults are for names that are not given
    obtain ⟨_, hdefault, rfl⟩ := List.mem_filterMap.1 hvalue
    obtain ⟨b, hb, habsent⟩ := List.mem_map.1 (mem_sortOut_iff.1 hdefault)
    have hnot := (List.mem_filter.1 hb).2
    rw [← name_of_absentMember habsent] at hnot
    have hhas : member.1 ∈ given.keys := List.mem_map_of_mem hm
    rw [← hname, Object.mem_keys_iff] at hhas
    simp [Object.has, hhas] at hnot

/-- An attribute that is neither given nor has a default is not in the row. -/
theorem notMem_coerceAttributes (hn : schema.attributeNames.Nodup) (ha : a ∈ schema.attributes)
    (hgiven : a.name ∉ given.keys) (hdefault : a.default = none) :
    a.name ∉ (coerceAttributes schema .create path given).1.keys := by
  intro hkey
  have hm := Object.mem_keys_ofList hkey
  rw [List.map_append, List.mem_append] at hm
  rcases hm with hm | hm
  · obtain ⟨result, hresult, hname⟩ := List.mem_map.1 hm
    obtain ⟨member, hmember, hcoerced⟩ := List.mem_map.1 (mem_sortOut_iff.1 hresult)
    rw [← hname, name_of_coerceMember hcoerced] at hgiven
    exact hgiven (List.mem_map_of_mem hmember)
  · obtain ⟨result, hresult, hname⟩ := List.mem_map.1 hm
    obtain ⟨_, hvalue, rfl⟩ := List.mem_filterMap.1 hresult
    obtain ⟨b, hb, habsent⟩ := List.mem_map.1 (mem_sortOut_iff.1 hvalue)
    rw [name_of_absentMember habsent] at hname
    obtain rfl := List.inj_on_of_nodup_map hn (List.mem_filter.1 hb).1 ha hname
    unfold absentMember at habsent
    rw [hdefault] at habsent
    dsimp only at habsent
    split at habsent <;> cases habsent

end Document

/-! ## Read payloads -/

/-- A document that gives no relationships leads to none. -/
theorem Payload.relationships_of_ofDocument {mode : WriteMode} {body : Json} {payload : Payload}
    (h : ofDocument r schema mode body = .ok payload)
    (hn : ((body.getD "data").getD "relationships").asObject?.getD [] = []) :
    payload.relationships = [] := by
  rw [eq_of_ofDocument h]
  unfold Document.readPayload
  dsimp only
  rw [hn]
  rfl

/-- The attributes of a payload were coerced without faults. -/
theorem Payload.coerced_of_ofDocument {mode : WriteMode} {body : Json} {payload : Payload}
    (h : ofDocument r schema mode body = .ok payload) :
    Document.coerceAttributes schema mode ["data", "attributes"]
      (((body.getD "data").getD "attributes").asObject?.getD []) = (payload.attributes, []) := by
  obtain ⟨rfl, hfaults⟩ := Prod.mk.inj (ofDocument_eq_ok_iff.1 h).2
  have hnone := (List.append_eq_nil_iff.1 (List.append_eq_nil_iff.1 hfaults).1).2
  exact Prod.ext rfl hnone

end ResourceApi
