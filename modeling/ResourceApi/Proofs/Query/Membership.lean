import ResourceApi.Proofs.Query.Acceptance
import ResourceApi.Proofs.Query.Written

/-!
# Filters by membership

A filter by membership can list its values in one pair, with commas between them, or repeat its key
once for each value (`Params.repeated`). The two ways can be mixed: the values of all pairs are
joined in order, and each of them is cut at its commas.

**Theorem (`Plan.ofQuery_repeated`).** A query string that repeats the key for a list of texts is
compiled into one condition on what is listed in them (`FilterParam.listed`). This is the list of
texts itself exactly if each of them is an item, that is, has no comma and is not empty.

Values are decoded before they are cut. A comma that is percent-encoded therefore separates items
like any other one, and there is no way to write a value that holds a comma.
-/

namespace ResourceApi

/-! ## What is listed -/

/-- The items that are listed in values: what stands between their commas, if there is anything. -/
def FilterParam.listed (values : List String) : List String :=
  (values.flatMap (Text.pieces ',')).filter (!·.isEmpty)

theorem FilterParam.isItem_of_mem_listed {values : List String} {item : String}
    (h : item ∈ listed values) : Entry.IsItem item := by
  obtain ⟨hitem, hne⟩ := List.mem_filter.1 h
  obtain ⟨value, -, hpiece⟩ := List.mem_flatMap.1 hitem
  obtain ⟨cs, hcs, rfl⟩ := List.mem_map.1 hpiece
  refine ⟨by simpa using hne, ?_⟩
  rw [String.toList_ofList]
  exact Text.notMem_of_mem_splitOn hcs

/-- Values list themselves if they are items, and only then. -/
theorem FilterParam.listed_eq_self_iff {values : List String} :
    listed values = values ↔ ∀ value ∈ values, Entry.IsItem value := by
  constructor
  · intro h value hvalue
    exact isItem_of_mem_listed (h ▸ hvalue)
  · intro h
    have hpieces : ∀ value ∈ values, Text.pieces ',' value = [value] := by
      intro value hvalue
      rw [Text.pieces, Text.splitOn_of_notMem (h value hvalue).2, List.map_singleton,
        String.ofList_toList]
    have hne : ∀ value ∈ values, (!value.isEmpty) = true :=
      fun value hvalue => by simpa using (h value hvalue).1
    rw [listed, List.flatMap_congr hpieces, List.flatMap_singleton', List.filter_eq_self.2 hne]

/-- A field of the row itself is one of the texts. -/
def Condition.isOneOf (field : String) (texts : List String) : Condition :=
  ⟨⟨[], field⟩, .among, .arr (texts.map .str)⟩

/-! ## Spelled names -/

namespace Entry

open Text

/-- A text that can be written for the name of a field in the key of a filter. -/
structure IsSpelling (operator : Operator) (spelling name : String) : Prop where
  ampersand_notMem : '&' ∉ spelling.toList
  equals_notMem : '=' ∉ spelling.toList
  decoded : Percent.decodeForm? (keyOf "filter" [spelling, operator.name]) =
    some (keyOf "filter" [name, operator.name])

instance (operator : Operator) (spelling name : String) :
    Decidable (IsSpelling operator spelling name) :=
  decidable_of_iff ('&' ∉ spelling.toList ∧ '=' ∉ spelling.toList ∧
      Percent.decodeForm? (keyOf "filter" [spelling, operator.name]) =
        some (keyOf "filter" [name, operator.name]))
    ⟨fun ⟨h, h', hd⟩ => ⟨h, h', hd⟩, fun ⟨h, h', hd⟩ => ⟨h, h', hd⟩⟩

theorem toList_keyOf_filter (field : String) (operator : Operator) :
    (keyOf "filter" [field, operator.name]).toList =
      "filter[".toList ++ (field.toList ++ ("][".toList ++ operator.name.toList ++ [']'])) := by
  rw [keyOf, String.toList_ofList, bracketed_cons, bracketed_cons]
  simp [bracketed]

/-- Nothing around the name in a key is special. -/
theorem mem_keyOf_filter {operator : Operator} {field : String} {c : Char}
    (h : c ∈ (keyOf "filter" [field, operator.name]).toList) (hc : c ∈ ['&', '=']) :
    c ∈ field.toList := by
  have hbefore : ∀ d ∈ "filter[".toList, d ∉ ['&', '='] := by simp
  have hafter : ∀ d ∈ "][".toList ++ operator.name.toList ++ [']'], d ∉ ['&', '='] := by
    cases operator <;> simp [Operator.name]
  rw [toList_keyOf_filter, List.mem_append, List.mem_append] at h
  rcases h with h | h | h
  · exact absurd hc (hbefore c h)
  · exact h
  · exact absurd hc (hafter c h)

theorem decoded_of_spells (operator : Operator) {spelling name : String}
    (h : Percent.Spells spelling.toList name.toList) :
    Percent.decodeForm? (keyOf "filter" [spelling, operator.name]) =
      some (keyOf "filter" [name, operator.name]) := by
  have hbefore : Percent.Spells "filter[".toList "filter[".toList :=
    Percent.spells_self (by decide) (by decide)
  have hafter : Percent.Spells ("][".toList ++ operator.name.toList ++ [']'])
      ("][".toList ++ operator.name.toList ++ [']']) := by
    cases operator <;> exact Percent.spells_self (by decide) (by decide)
  have hkey := Percent.decodeForm?_of_spells (hbefore.append (h.append hafter))
  rwa [← toList_keyOf_filter, ← toList_keyOf_filter, String.ofList_toList,
    String.ofList_toList] at hkey

/-- A name is spelled by its encoded form. -/
theorem isSpelling_encode (operator : Operator) (name : String) :
    IsSpelling operator (Percent.encode name) name where
  ampersand_notMem h := absurd (Percent.isPlain_of_mem_encode h) (by decide)
  equals_notMem h := absurd (Percent.isPlain_of_mem_encode h) (by decide)
  decoded := decoded_of_spells operator (Percent.spells_encode name)

/-- A name without special characters is spelled as it is. -/
theorem isSpelling_self (operator : Operator) {name : String}
    (h : ∀ c ∈ ['&', '=', '%', '+'], c ∉ name.toList) : IsSpelling operator name name where
  ampersand_notMem := h '&' (by simp)
  equals_notMem := h '=' (by simp)
  decoded := decoded_of_spells operator (Percent.spells_self (h '+' (by simp)) (h '%' (by simp)))

/-- A filter of a field and a value as it is written. -/
def filterText (spelling : String) (operator : Operator) (value : String) : List Char :=
  (keyOf "filter" [spelling, operator.name]).toList ++ '=' :: (Percent.encode value).toList

theorem ofPair_filterText {operator : Operator} {spelling name : String}
    (h : IsSpelling operator spelling name) (hne : name ≠ "") (hname : IsName name)
    (value : String) :
    ofPair (filterText spelling operator value) = .ok (.filter name operator value) := by
  have hkey : '=' ∉ (keyOf "filter" [spelling, operator.name]).toList :=
    fun hmem => h.equals_notMem (mem_keyOf_filter hmem (by simp))
  have hcut : cut (filterText spelling operator value) =
      ((keyOf "filter" [spelling, operator.name]).toList, (Percent.encode value).toList) := by
    rw [cut, filterText, cutFirst_append hkey]
    rfl
  refine ofPair_eq_ok_iff.2 ⟨keyOf "filter" [name, operator.name], value, ?_, ?_, ?_⟩
  · rw [key?, hcut, String.ofList_toList, h.decoded]
  · rw [value?, hcut, String.ofList_toList, Percent.decodeForm?_encode]
  · exact .filter rfl (.inl (by simp)) hne hname

theorem isPair_filterText {operator : Operator} {spelling name : String}
    (h : IsSpelling operator spelling name) (value : String) :
    Params.IsPair (filterText spelling operator value) ∧
      (filterText spelling operator value).head? ≠ some '?' := by
  have hvalue : '&' ∉ (Percent.encode value).toList :=
    fun hmem => absurd (Percent.isPlain_of_mem_encode hmem) (by decide)
  have hkey : '&' ∉ (keyOf "filter" [spelling, operator.name]).toList :=
    fun hmem => h.ampersand_notMem (mem_keyOf_filter hmem (by simp))
  refine ⟨⟨by simp [filterText], ?_⟩, ?_⟩
  · simp [filterText, hkey, hvalue]
  · rw [filterText, toList_keyOf_filter]
    simp

end Entry

namespace Params

/-- A query string that repeats the filter of a field, once for each value. -/
def repeated (spelling : String) (operator : Operator) (values : List String) : String :=
  String.ofList (['&'].intercalate (values.map (Entry.filterText spelling operator)))

theorem foldlM_add_filter (field : String) (operator : Operator) (earlier values : List String) :
    (values.map (Entry.filter field operator)).foldlM add
        { filters := [⟨field, operator, earlier⟩] } =
      .ok { filters := [⟨field, operator, earlier ++ values⟩] } := by
  induction values generalizing earlier with
  | nil => simp [pure, Except.pure]
  | cons value values ih =>
    rw [List.map_cons, List.foldlM_cons, add, addFilter, if_pos ⟨rfl, rfl⟩]
    show (values.map (Entry.filter field operator)).foldlM add _ = _
    rw [ih, List.append_assoc, List.singleton_append]

/-- **The values of a repeated filter are collected in order.** -/
theorem parse_repeated {operator : Operator} {spelling name : String} {values : List String}
    (h : Entry.IsSpelling operator spelling name) (hne : name ≠ "") (hname : Entry.IsName name)
    (hvalues : values ≠ []) :
    parse (repeated spelling operator values) = .ok { filters := [⟨name, operator, values⟩] } := by
  have hpairs : pairs (repeated spelling operator values) =
      values.map (Entry.filterText spelling operator) :=
    pairs_intercalate (List.forall_mem_map.2 fun value _ => Entry.isPair_filterText h value)
  have hentries : (pairs (repeated spelling operator values)).mapM Entry.ofPair =
      .ok (values.map (Entry.filter name operator)) := by
    rw [hpairs, mapM_eq_ok, List.forall₂_map_left_iff, List.forall₂_map_right_iff,
      List.forall₂_same]
    exact fun value _ => Entry.ofPair_filterText h hne hname value
  obtain ⟨value, rest, rfl⟩ := List.exists_cons_of_ne_nil hvalues
  rw [parse_of_entries hentries, List.map_cons, List.foldlM_cons]
  exact foldlM_add_filter name operator [value] rest

end Params

namespace Plan

variable {schemas : List Schema} {r : Registry} {schema : Schema} {a : Attribute}

/-- Texts are texts of a text attribute as they are. -/
theorem coerceText_of_text (hd : Registry.DistinctNames schema) (ha : a ∈ schema.attributes)
    (ht : a.type = .string ∨ a.type = .text) (raw : String) :
    schema.coerceText a.name raw = .ok (.str raw) := by
  obtain ⟨hid, hn⟩ := List.nodup_cons.1 hd.fields
  have hne : a.name ≠ schema.idField := fun he => hid (he ▸ List.mem_map_of_mem ha)
  have hfind : schema.attribute? a.name = some a := find?_eq_some_of_nodup hn ha
  rw [Schema.coerceText, if_neg hne, hfind]
  rcases ht with ht | ht <;> simp only [ht, AttributeType.ofText?]

/-- A filter by membership of a text attribute compares with what is listed. -/
theorem compileCondition_among (hd : Registry.DistinctNames schema) (ha : a ∈ schema.attributes)
    (ht : a.type = .string ∨ a.type = .text) (hdot : '.' ∉ a.name.toList) (values : List String) :
    compileCondition r schema ⟨a.name, .among, values⟩ =
      .ok (.condition (.isOneOf a.name (FilterParam.listed values))) := by
  have hvalue : compileValue schema a.name ⟨a.name, .among, values⟩ =
      .ok (.arr ((FilterParam.listed values).map .str)) := by
    have hcoerce (raw : String) : (schema.coerceText a.name raw).mapError
        (PlanError.wrongValue a.name ·) = .ok (.str raw) := by
      rw [coerceText_of_text hd ha ht]
      rfl
    unfold compileValue
    simp only [Operator.takesArray, Operator.isPattern, hcoerce, if_true, Bool.false_eq_true,
      if_false]
    refine bind_eq_ok.2 ⟨_, mapM_eq_ok.2 ?_, rfl⟩
    exact List.forall₂_map_right_iff.2 (List.forall₂_same.2 fun _ _ => rfl)
  have hfield : schema.hasField a.name :=
    Schema.hasField_of_mem (List.mem_cons_of_mem _ (List.mem_map_of_mem ha))
  unfold compileCondition
  simp only [Path.ofText_of_notMem hdot, resolve]
  refine bind_eq_ok.2 ⟨schema, rfl, ?_⟩
  rw [if_neg (by simp [hfield])]
  exact bind_eq_ok.2 ⟨_, hvalue, rfl⟩

/-- Parameters with a filter and nothing else are compiled into its condition. -/
theorem compile_filter {param : FilterParam} {p : Predicate}
    (h : compileCondition r schema param = .ok p) :
    compile r schema { filters := [param] } none = .ok { filter := .all [p] } := by
  simp [compile, h, compileInclude, compilePage, sortOut]

theorem ofQuery_repeated_eq (hd : Registry.DistinctNames schema) (ha : a ∈ schema.attributes)
    (ht : a.type = .string ∨ a.type = .text) (hne : a.name ≠ "") (hdot : '.' ∉ a.name.toList)
    (hname : Entry.IsName a.name) {spelling : String}
    (hspelling : Entry.IsSpelling .among spelling a.name) {values : List String}
    (hvalues : values ≠ []) :
    ofQuery r schema (Params.repeated spelling .among values) none = .ok
      { filter := .all [.condition (.isOneOf a.name (FilterParam.listed values))] } :=
  ofQuery_eq_ok.2 ⟨_, Params.parse_repeated hspelling hne hname hvalues,
    compile_filter (compileCondition_among hd ha ht hdot values)⟩

/-- **A repeated filter by membership compares with what its values list.** That is the list of the
values themselves exactly if none of them is empty or holds a comma. -/
theorem ofQuery_repeated (h : Registry.assemble schemas = .ok r) (hs : schema ∈ schemas)
    (ha : a ∈ schema.attributes) (ht : a.type = .string ∨ a.type = .text) (hne : a.name ≠ "")
    (hdot : '.' ∉ a.name.toList) (hname : Entry.IsName a.name) {spelling : String}
    (hspelling : Entry.IsSpelling .among spelling a.name) {values : List String}
    (hvalues : values ≠ []) :
    ofQuery r schema (Params.repeated spelling .among values) none = .ok
      { filter := .all [.condition (.isOneOf a.name (FilterParam.listed values))] } ∧
    (FilterParam.listed values = values ↔
      ∀ value ∈ values, value ≠ "" ∧ ',' ∉ value.toList) := by
  have hregistered : schema ∈ r.schemas := (Registry.indexes_of_assemble h).registered ▸ hs
  have hd := (Registry.coherent_of_assemble h).names schema hregistered
  exact ⟨ofQuery_repeated_eq hd ha ht hne hdot hname hspelling hvalues,
    FilterParam.listed_eq_self_iff⟩

/-- Notes with attributes whose names are hard to write in a filter. -/
def oddNote : Schema where
  name := "Note"
  attributes := ["text", "ä &=%+", "a.b", "c[d]", ""].map fun name => { name, type := .string }

/-- The registry of the notes. -/
def oddNotes : Registry := ⟨[oddNote], [], []⟩

theorem assemble_oddNote : Registry.assemble [oddNote] = .ok oddNotes := by decide +kernel

/-- Encoded names and values are read as they are. -/
theorem ofQuery_repeated_odd :
    Registry.assemble [oddNote] = .ok oddNotes ∧
    Params.repeated "%C3%A4 %26%3D%25%2b" .among ["y", "x&=+"] =
      "filter[%C3%A4 %26%3D%25%2b][$in]=y&filter[%C3%A4 %26%3D%25%2b][$in]=x%26%3D%2B" ∧
    ofQuery oddNotes oddNote (Params.repeated "%C3%A4 %26%3D%25%2b" .among ["y", "x&=+"]) none =
      .ok { filter := .all [.condition (.isOneOf "ä &=%+" ["y", "x&=+"])] } := by
  have hs : oddNote ∈ [oddNote] := by simp
  have ha : { name := "ä &=%+", type := .string } ∈ oddNote.attributes := by simp [oddNote]
  have hspelling : Entry.IsSpelling .among "%C3%A4 %26%3D%25%2b" "ä &=%+" := by decide +kernel
  have hvalues : ["y", "x&=+"] ≠ [] := by decide
  obtain ⟨hplan, hlisted⟩ := ofQuery_repeated assemble_oddNote hs ha (.inl rfl) (by decide)
    (by decide) (by decide) hspelling hvalues
  rw [hlisted.2 (by decide)] at hplan
  exact ⟨assemble_oddNote, by decide +kernel, hplan⟩

/-- An encoded comma separates, an empty value is no item, and there are names that cannot be
written. -/
theorem ofQuery_repeated_comma :
    Registry.assemble [oddNote] = .ok oddNotes ∧
    Params.repeated "text" .among ["a,b"] = "filter[text][$in]=a%2Cb" ∧
    ofQuery oddNotes oddNote "filter[text][$in]=a%2Cb" none =
      .ok { filter := .all [.condition (.isOneOf "text" ["a", "b"])] } ∧
    ofQuery oddNotes oddNote "filter[text][$in]=" none =
      .ok { filter := .all [.condition (.isOneOf "text" [])] } ∧
    Condition.isOneOf "text" ["a", "b"] ≠ Condition.isOneOf "text" ["a,b"] ∧
    Condition.isOneOf "text" [] ≠ Condition.isOneOf "text" [""] ∧
    ∀ name ∈ ["a.b", "c[d]", ""],
      (ofQuery oddNotes oddNote (Params.repeated name .among ["x"]) none).toOption.isNone := by
  have hd : Registry.DistinctNames oddNote := ⟨by decide, by decide, by decide⟩
  have ha : { name := "text", type := .string } ∈ oddNote.attributes := by simp [oddNote]
  have hspelling : Entry.IsSpelling .among "text" "text" :=
    Entry.isSpelling_self .among (by simp)
  have htext (values : List String) (hvalues : values ≠ []) :
      ofQuery oddNotes oddNote (Params.repeated "text" .among values) none =
        .ok { filter := .all [.condition (.isOneOf "text" (FilterParam.listed values))] } :=
    ofQuery_repeated_eq hd ha (.inl rfl) (by decide) (by decide) (by decide) hspelling hvalues
  have hcomma := htext ["a,b"] (by decide)
  have hempty := htext [""] (by decide)
  rw [show FilterParam.listed ["a,b"] = ["a", "b"] by decide,
    show Params.repeated "text" .among ["a,b"] = "filter[text][$in]=a%2Cb" by decide +kernel]
    at hcomma
  rw [show FilterParam.listed [""] = [] by decide,
    show Params.repeated "text" .among [""] = "filter[text][$in]=" by decide +kernel] at hempty
  exact ⟨assemble_oddNote, by decide +kernel, hcomma, hempty, by decide, by decide,
    by decide +kernel⟩

end Plan

end ResourceApi
