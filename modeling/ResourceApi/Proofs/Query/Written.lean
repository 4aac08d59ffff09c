import ResourceApi.Proofs.Query.Gathering
import ResourceApi.Proofs.Text.Percent

/-!
# Written parameters

Parameters are written as a query string with every part of a key and every value
percent-encoded (`Params.write`).

**Theorem (`Params.parse_write`).** Whatever a query string is read as is well-formed
(`Params.WellFormed`), and every well-formed one is read from what it is written as. So these are
exactly the parameters that query strings stand for.

Both directions go through entries. An entry that is read is sound (`Entry.sound_of_reads`), and a
sound entry is read from its text (`Entry.ofPair_text`). What is gathered from sound entries is
well-formed (`wellFormed_gather`), and the entries that parameters are written as are gathered into
the parameters (`gather_entries`).
-/

namespace ResourceApi

namespace Entry

open Text

/-! ## Lists -/

/-- A text that can stand in a comma-separated list. -/
def IsItem (s : String) : Prop := s ≠ "" ∧ ',' ∉ s.toList

instance (s : String) : Decidable (IsItem s) := inferInstanceAs (Decidable (_ ∧ _))

/-- Items with commas between them. -/
def listed (items : List String) : String :=
  String.ofList ([','].intercalate (items.map String.toList))

theorem isItem_of_mem_items {value : String} {items : List String} (h : items? value = some items) :
    ∀ item ∈ items, IsItem item := by
  unfold items? at h
  dsimp only at h
  split at h
  · cases h
    simp
  split at h
  · cases h
  rename_i hempty
  cases h
  intro item hitem
  obtain ⟨cs, hcs, rfl⟩ := List.mem_map.1 hitem
  refine ⟨fun he => hempty ?_, ?_⟩
  · exact List.any_eq_true.2 ⟨_, hitem, String.isEmpty_iff.2 he⟩
  · rw [String.toList_ofList]
    exact notMem_of_mem_splitOn hcs

/-- Items are found again. -/
theorem items?_listed {items : List String} (h : ∀ item ∈ items, IsItem item) :
    items? (listed items) = some items := by
  cases items with
  | nil => rfl
  | cons item rest =>
    have hsplit :
        splitOn ',' (listed (item :: rest)).toList = (item :: rest).map String.toList := by
      rw [listed, String.toList_ofList]
      refine splitOn_intercalate ?_
      rw [← List.map_cons, List.forall_mem_map]
      exact fun i hi => (h i hi).2
    have hpieces : pieces ',' (listed (item :: rest)) = item :: rest := by
      rw [pieces, hsplit, List.map_map]
      refine (List.map_congr_left fun s _ => ?_).trans (List.map_id _)
      exact String.ofList_toList
    have hne : (listed (item :: rest)).isEmpty ≠ true := by
      intro he
      rw [String.isEmpty_iff.1 he] at hpieces
      exact (h item (by simp)).1 (List.cons.inj hpieces).1.symm
    have hany : (item :: rest).any (·.isEmpty) = false :=
      List.any_eq_false.2 fun i hi he => (h i hi).1 (String.isEmpty_iff.1 he)
    unfold items?
    rw [if_neg hne, hpieces]
    simp only [hany, Bool.false_eq_true, if_false]

/-- A sort key as it is written. -/
def sortText (s : SortParam) : String :=
  match s.direction with
  | .asc => s.field
  | .desc => String.ofList ('-' :: s.field.toList)

/-- A sort key that can be written: its field is an item, and no minus sign is read into it. -/
def IsKey (s : SortParam) : Prop :=
  IsItem s.field ∧ (s.direction = .asc → s.field.toList.head? ≠ some '-')

instance (s : SortParam) : Decidable (IsKey s) := inferInstanceAs (Decidable (_ ∧ _))

theorem isItem_sortText {s : SortParam} (h : IsKey s) : IsItem (sortText s) := by
  unfold sortText
  split
  · exact h.1
  · refine ⟨fun he => ?_, ?_⟩
    · have := congrArg String.toList he
      simp at this
    · simpa using h.1.2

theorem sortParam?_minus {item : String} {rest : List Char} (h : item.toList = '-' :: rest) :
    sortParam? item =
      if (String.ofList rest).isEmpty then none else some ⟨String.ofList rest, .desc⟩ := by
  unfold sortParam?
  simp only [h]

theorem sortParam?_plain {item : String} (h : item.toList.head? ≠ some '-') :
    sortParam? item = if item.isEmpty then none else some ⟨item, .asc⟩ := by
  have hnot : ∀ rest, item.toList ≠ '-' :: rest := by
    intro rest he
    exact h (by rw [he]; rfl)
  unfold sortParam?
  dsimp only
  generalize item.toList = cs at hnot
  cases cs with
  | nil => rfl
  | cons c rest =>
    split
    · rename_i rest' he
      exact absurd he (hnot rest')
    · rfl

theorem sortParam?_sortText {s : SortParam} (h : IsKey s) : sortParam? (sortText s) = some s := by
  obtain ⟨field, direction⟩ := s
  have hne : ¬ field.isEmpty := fun he => h.1.1 (String.isEmpty_iff.1 he)
  cases direction with
  | asc => exact (sortParam?_plain (h.2 rfl)).trans (if_neg hne)
  | desc =>
    have hminus : (sortText ⟨field, .desc⟩).toList = '-' :: field.toList := String.toList_ofList
    rw [sortParam?_minus hminus, String.ofList_toList]
    exact if_neg hne

theorem isKey_of_sortParam? {item : String} {s : SortParam} (hitem : IsItem item)
    (h : sortParam? item = some s) : IsKey s := by
  by_cases hminus : item.toList.head? = some '-'
  · obtain ⟨rest, hrest⟩ := List.head?_eq_some_iff.1 hminus
    rw [sortParam?_minus hrest] at h
    split at h
    · cases h
    rename_i hne
    cases h
    refine ⟨⟨fun he => hne (String.isEmpty_iff.2 he), fun hcomma => hitem.2 ?_⟩, nofun⟩
    rw [String.toList_ofList] at hcomma
    exact hrest ▸ List.mem_cons_of_mem _ hcomma
  · rw [sortParam?_plain hminus] at h
    split at h
    · cases h
    cases h
    exact ⟨hitem, fun _ => hminus⟩

theorem mapM_sortParam? {keys : List SortParam} (h : ∀ s ∈ keys, IsKey s) :
    (keys.map sortText).mapM sortParam? = some keys := by
  induction keys with
  | nil => rfl
  | cons s keys ih =>
    obtain ⟨hs, hkeys⟩ := List.forall_mem_cons.1 h
    rw [List.map_cons, List.mapM_cons, sortParam?_sortText hs, ih hkeys]
    rfl

theorem isKey_of_mapM {items : List String} {keys : List SortParam}
    (hitems : ∀ item ∈ items, IsItem item) (h : items.mapM sortParam? = some keys) :
    ∀ s ∈ keys, IsKey s := by
  induction items generalizing keys with
  | nil =>
    cases h
    simp
  | cons item items ih =>
    obtain ⟨hitem, hrest⟩ := List.forall_mem_cons.1 hitems
    rw [List.mapM_cons] at h
    obtain ⟨s, hs, h⟩ := Option.bind_eq_some_iff.1 h
    obtain ⟨others, hothers, h⟩ := Option.bind_eq_some_iff.1 h
    cases h
    exact List.forall_mem_cons.2 ⟨isKey_of_sortParam? hitem hs, ih hrest hothers⟩

/-! ## Entries -/

/-- What holds of an entry that is read. -/
def Sound : Entry → Prop
  | filter field _ _ => field ≠ "" ∧ IsName field
  | sort keys => ∀ s ∈ keys, IsKey s
  | includes paths => ∀ path ∈ paths, IsItem path
  | fields typeName names => (typeName ≠ "" ∧ IsName typeName) ∧ ∀ name ∈ names, IsItem name
  | pageNumber _ | pageSize _ | ignored => True

theorem sound_of_reads {key value : String} {e : Entry} (h : Reads key value e) : e.Sound := by
  cases h with
  | filter _ _ hne hname => exact ⟨hne, hname⟩
  | sort _ hitems hkeys =>
    exact isKey_of_mapM (isItem_of_mem_items hitems) hkeys
  | includes _ hitems => exact isItem_of_mem_items hitems
  | fields _ hne hname hitems => exact ⟨⟨hne, hname⟩, isItem_of_mem_items hitems⟩
  | _ => trivial

/-- A key and a value as they are written, with an equals sign between them. -/
def pairText (bucket : String) (segments : List String) (value : String) : List Char :=
  (keyOf (Percent.encode bucket) (segments.map Percent.encode)).toList ++
    '=' :: (Percent.encode value).toList

/-- A pair that an entry is written as. -/
def text : Entry → List Char
  | filter field operator value => pairText "filter" [field, operator.name] value
  | sort keys => pairText "sort" [] (listed (keys.map sortText))
  | includes paths => pairText "include" [] (listed paths)
  | fields typeName names => pairText "fields" [typeName] (listed names)
  | pageNumber value => pairText "page" ["number"] value
  | pageSize value => pairText "page" ["size"] value
  | ignored => pairText "" [] ""

theorem spells_keyOf (bucket : String) (segments : List String) :
    Percent.Spells (keyOf (Percent.encode bucket) (segments.map Percent.encode)).toList
      (keyOf bucket segments).toList := by
  rw [keyOf, keyOf, String.toList_ofList, String.toList_ofList]
  refine (Percent.spells_encode bucket).append ?_
  have hopen : Percent.Spells ['['] ['['] :=
    Percent.spells_singleton (b := 0x5B) (by decide) (by decide) (by decide)
  have hclose : Percent.Spells [']'] [']'] :=
    Percent.spells_singleton (b := 0x5D) (by decide) (by decide) (by decide)
  induction segments with
  | nil => exact Percent.spells_nil
  | cons s segments ih =>
    have h := hopen.append ((Percent.spells_encode s).append (hclose.append ih))
    rw [List.singleton_append, List.singleton_append, List.singleton_append,
      List.singleton_append] at h
    rw [List.map_cons, bracketed_cons, bracketed_cons]
    exact h

/-- A character that pairs are made of. -/
def isWritten (c : Char) : Bool := Percent.isPlain c || c = '[' || c = ']' || c = '='

theorem isWritten_of_mem_keyOf {bucket : String} {segments : List String} {c : Char}
    (h : c ∈ (keyOf (Percent.encode bucket) (segments.map Percent.encode)).toList) :
    isWritten c ∧ c ≠ '=' := by
  have hplain {s : String} (hc : c ∈ (Percent.encode s).toList) : isWritten c ∧ c ≠ '=' := by
    have hp := Percent.isPlain_of_mem_encode hc
    refine ⟨by rw [isWritten, hp]; rfl, ?_⟩
    rintro rfl
    exact absurd hp (by decide)
  rw [keyOf, String.toList_ofList, List.mem_append] at h
  rcases h with h | h
  · exact hplain h
  · rw [bracketed, List.mem_flatMap] at h
    obtain ⟨s, hs, hc⟩ := h
    obtain ⟨t, -, rfl⟩ := List.mem_map.1 hs
    simp only [List.mem_cons, List.mem_append, List.not_mem_nil, or_false] at hc
    rcases hc with rfl | hc | rfl
    · decide
    · exact hplain hc
    · decide

theorem isWritten_of_mem_pairText {bucket value : String} {segments : List String} {c : Char}
    (h : c ∈ pairText bucket segments value) : isWritten c := by
  rw [pairText, List.mem_append, List.mem_cons] at h
  rcases h with h | rfl | h
  · exact (isWritten_of_mem_keyOf h).1
  · decide
  · rw [isWritten, Percent.isPlain_of_mem_encode h]
    rfl

/-- The key and the value of a written pair are found again. -/
theorem decoded_pairText (bucket value : String) (segments : List String) :
    key? (pairText bucket segments value) = some (keyOf bucket segments) ∧
      value? (pairText bucket segments value) = some value := by
  have hcut : cut (pairText bucket segments value) =
      ((keyOf (Percent.encode bucket) (segments.map Percent.encode)).toList,
        (Percent.encode value).toList) := by
    rw [cut, pairText, cutFirst_append fun h => (isWritten_of_mem_keyOf h).2 rfl]
    rfl
  rw [key?, value?, hcut, Percent.decodeForm?_of_spells (spells_keyOf bucket segments),
    String.ofList_toList, String.ofList_toList, Percent.decodeForm?_encode]
  exact ⟨rfl, rfl⟩

theorem reads_of_sound {e : Entry} (h : e.Sound) : ∃ bucket segments value,
    e.text = pairText bucket segments value ∧ Reads (keyOf bucket segments) value e := by
  cases e with
  | filter field operator value => exact ⟨_, _, _, rfl, .filter rfl (.inl (by simp)) h.1 h.2⟩
  | sort keys =>
    have hitems : ∀ item ∈ keys.map sortText, IsItem item :=
      List.forall_mem_map.2 fun s hs => isItem_sortText (h s hs)
    exact ⟨_, _, _, rfl, .sort rfl (items?_listed hitems) (mapM_sortParam? h)⟩
  | includes paths => exact ⟨_, _, _, rfl, .includes rfl (items?_listed h)⟩
  | fields typeName names => exact ⟨_, _, _, rfl, .fields rfl h.1.1 h.1.2 (items?_listed h.2)⟩
  | pageNumber value => exact ⟨_, _, _, rfl, .pageNumber rfl⟩
  | pageSize value => exact ⟨_, _, _, rfl, .pageSize rfl⟩
  | ignored => exact ⟨_, _, _, rfl, .ignored (by decide)⟩

/-- **A sound entry is read from its text.** -/
theorem ofPair_text {e : Entry} (h : e.Sound) : ofPair e.text = .ok e := by
  obtain ⟨bucket, segments, value, htext, hreads⟩ := reads_of_sound h
  obtain ⟨hkey, hvalue⟩ := decoded_pairText bucket value segments
  exact ofPair_eq_ok_iff.2 ⟨_, _, htext ▸ hkey, htext ▸ hvalue, hreads⟩

theorem isPair_text (e : Entry) : Params.IsPair e.text ∧ e.text.head? ≠ some '?' := by
  have hpair (bucket value : String) (segments : List String) :
      Params.IsPair (pairText bucket segments value) ∧
        (pairText bucket segments value).head? ≠ some '?' := by
    have hwritten {c : Char} (h : c ∈ pairText bucket segments value) : isWritten c :=
      isWritten_of_mem_pairText h
    refine ⟨⟨by simp [pairText], fun h => absurd (hwritten h) (by decide)⟩, fun h => ?_⟩
    exact absurd (hwritten (List.mem_of_mem_head? h)) (by decide)
  cases e <;> exact hpair _ _ _

end Entry

namespace Params

/-! ## Parameters -/

/-- Parameters that a query string can stand for. -/
structure WellFormed (p : Params) : Prop where
  filters : ∀ f ∈ p.filters, (f.field ≠ "" ∧ Entry.IsName f.field) ∧ f.values ≠ []
  filters_apart : (p.filters.map fun f => (f.field, f.operator)).Nodup
  sort : ∀ s ∈ p.sort, Entry.IsKey s
  includes : ∀ path ∈ p.includes, Entry.IsItem path
  fields : ∀ f ∈ p.fields,
    (f.typeName ≠ "" ∧ Entry.IsName f.typeName) ∧ ∀ name ∈ f.names, Entry.IsItem name
  fields_apart : (p.fields.map (·.typeName)).Nodup

/-- The entries that parameters are written as, section by section. Nothing is written of a section
without content. -/
def entries (p : Params) : List Entry :=
  p.filters.flatMap (fun f => f.values.map (.filter f.field f.operator)) ++
    ((if p.sort = [] then [] else [.sort p.sort]) ++
    ((if p.includes = [] then [] else [.includes p.includes]) ++
    (p.fields.map (fun f => .fields f.typeName f.names) ++
    ((p.pageNumber.map .pageNumber).toList ++ (p.pageSize.map .pageSize).toList))))

/-- Parameters as a query string. -/
def write (p : Params) : String := String.ofList (['&'].intercalate (p.entries.map Entry.text))

/-- Written pairs are the pairs of the query string that they are joined to. -/
theorem pairs_intercalate {texts : List (List Char)}
    (h : ∀ t ∈ texts, IsPair t ∧ t.head? ≠ some '?') :
    pairs (String.ofList (['&'].intercalate texts)) = texts := by
  cases texts with
  | nil => rfl
  | cons t texts =>
    have hsep : ∀ u ∈ t :: texts, '&' ∉ u := fun u hu => (h u hu).1.2
    have hne : ∀ u ∈ t :: texts, (!u.isEmpty) = true := fun u hu => by simpa using (h u hu).1.1
    obtain ⟨⟨hempty, -⟩, hhead⟩ := h t (by simp)
    have hbody : body (['&'].intercalate (t :: texts)) = ['&'].intercalate (t :: texts) := by
      obtain ⟨c, rest, rfl⟩ := List.exists_cons_of_ne_nil hempty
      have hc : c ≠ '?' := fun he => hhead (by rw [he]; rfl)
      cases texts with
      | nil => simp [body, hc]
      | cons => simp [body, hc]
    rw [pairs_eq, String.toList_ofList, hbody, Text.splitOn_intercalate hsep,
      List.filter_eq_self.2 hne]

/-- The texts of sound entries are gathered into the entries. -/
theorem foldlM_texts {es : List Entry} (hs : ∀ e ∈ es, e.Sound)
    (hn : (es.filterMap Entry.pageKey?).Nodup) :
    (es.map Entry.text).foldlM addPair {} = .ok (gather (es.map ofEntry)) := by
  induction es using List.reverseRecOn with
  | nil => rfl
  | append_singleton es e ih =>
    rw [List.filterMap_append, List.nodup_append] at hn
    obtain ⟨hes, -, hapart⟩ := hn
    have hnew : ∀ key, e.pageKey? = some key → ¬ (gather (es.map ofEntry)).Given key := by
      intro key hkey hgiven
      obtain ⟨part, hpart, hgiven⟩ := given_gather.1 hgiven
      obtain ⟨d, hd, rfl⟩ := List.mem_map.1 hpart
      refine hapart key (List.mem_filterMap.2 ⟨d, hd, given_ofEntry.1 hgiven⟩) key ?_ rfl
      exact List.mem_filterMap.2 ⟨e, by simp, hkey⟩
    rw [List.map_append, List.map_singleton, List.foldlM_append,
      ih (fun d hd => hs d (by simp [hd])) hes]
    show [e.text].foldlM addPair (gather (es.map ofEntry)) = _
    rw [List.foldlM_cons, addPair, Entry.ofPair_text (hs e (by simp))]
    show add _ e >>= _ = _
    rw [add_gather hnew, List.map_append]
    rfl

theorem sound_of_mem_entries {p : Params} (h : p.WellFormed) {e : Entry} (he : e ∈ p.entries) :
    e.Sound := by
  simp only [entries, List.mem_append, List.mem_flatMap, List.mem_map, Option.mem_toList,
    Option.map_eq_some_iff] at he
  rcases he with ⟨f, hf, v, -, rfl⟩ | he | he | ⟨f, hf, rfl⟩ | ⟨v, -, rfl⟩ | ⟨v, -, rfl⟩
  · exact (h.filters f hf).1
  · split at he
    · cases he
    · exact List.mem_singleton.1 he ▸ h.sort
  · split at he
    · cases he
    · exact List.mem_singleton.1 he ▸ h.includes
  · exact h.fields f hf
  · trivial
  · trivial

/-- What is collected from the entries, section by section. -/
theorem flatMap_entries {α : Type} (p : Params) (f : Entry → List α) : p.entries.flatMap f =
    p.filters.flatMap (fun g => g.values.flatMap fun v => f (.filter g.field g.operator v)) ++
      ((if p.sort = [] then [] else f (.sort p.sort)) ++
      ((if p.includes = [] then [] else f (.includes p.includes)) ++
      (p.fields.flatMap (fun g => f (.fields g.typeName g.names)) ++
      (p.pageNumber.toList.flatMap (fun v => f (.pageNumber v)) ++
        p.pageSize.toList.flatMap fun v => f (.pageSize v))))) := by
  simp only [entries, List.flatMap_append, List.flatMap_assoc, List.flatMap_map]
  congr 2
  · split <;> simp
  congr 1
  · split <;> simp
  · cases p.pageNumber <;> cases p.pageSize <;> rfl

theorem flatMap_nothing {α β : Type} (xs : List α) : xs.flatMap (fun _ => ([] : List β)) = [] :=
  List.flatMap_eq_nil_iff.2 fun _ _ => rfl

theorem ite_eq_nil {α : Type} [DecidableEq α] (xs : List α) :
    (if xs = [] then [] else xs) = xs := by
  split
  · exact Eq.symm ‹xs = []›
  · rfl

theorem nodup_pageKeys_entries (p : Params) : (p.entries.filterMap Entry.pageKey?).Nodup := by
  rw [List.filterMap_eq_flatMap_toList, flatMap_entries]
  cases p.pageNumber <;> cases p.pageSize <;> simp [Entry.pageKey?, flatMap_nothing]

/-- **The entries that parameters are written as are gathered into the parameters.** -/
theorem gather_entries {p : Params} (h : p.WellFormed) : gather (p.entries.map ofEntry) = p := by
  have hfilters :
      (p.entries.map ofEntry).flatMap (·.filters) = p.filters.flatMap byOperator.pieces := by
    rw [List.flatMap_map, flatMap_entries]
    simp only [ofEntry, flatMap_nothing, ite_self, List.append_nil]
    exact List.flatMap_congr fun f _ => List.map_eq_flatMap.symm
  have hsort : (p.entries.map ofEntry).flatMap (·.sort) = p.sort := by
    rw [List.flatMap_map, flatMap_entries]
    simp [ofEntry, flatMap_nothing, ite_eq_nil]
  have hincludes : (p.entries.map ofEntry).flatMap (·.includes) = p.includes := by
    rw [List.flatMap_map, flatMap_entries]
    simp [ofEntry, flatMap_nothing, ite_eq_nil]
  have hfields : (p.entries.map ofEntry).flatMap (·.fields) = p.fields := by
    rw [List.flatMap_map, flatMap_entries]
    simp [ofEntry, flatMap_nothing]
  have hnumber : (p.entries.map ofEntry).flatMap (·.pageNumber.toList) = p.pageNumber.toList := by
    rw [List.flatMap_map, flatMap_entries]
    simp [ofEntry, flatMap_nothing]
  have hsize : (p.entries.map ofEntry).flatMap (·.pageSize.toList) = p.pageSize.toList := by
    rw [List.flatMap_map, flatMap_entries]
    simp [ofEntry, flatMap_nothing]
  rw [gather, hfilters, hsort, hincludes, hfields, hnumber, hsize,
    byOperator.grouped_pieces h.filters_apart fun f hf => (h.filters f hf).2,
    byType.grouped_of_nodup h.fields_apart]
  simp

/-! ## What is read -/

theorem wellFormed_gather {parts : List Params}
    (h : ∀ part ∈ parts, ∃ e : Entry, e.Sound ∧ part = ofEntry e) : (gather parts).WellFormed := by
  have hentry {α : Type} {f : Params → List α} {x : α} (hx : x ∈ parts.flatMap f) :
      ∃ e : Entry, e.Sound ∧ x ∈ f (ofEntry e) := by
    obtain ⟨part, hpart, hx⟩ := List.mem_flatMap.1 hx
    obtain ⟨e, hsound, rfl⟩ := h part hpart
    exact ⟨e, hsound, hx⟩
  have hfilters : ∀ f ∈ parts.flatMap (·.filters),
      (f.field ≠ "" ∧ Entry.IsName f.field) ∧ f.values ≠ [] := by
    intro f hf
    obtain ⟨e, hsound, hf⟩ := hentry hf
    cases e <;> simp only [ofEntry, List.mem_singleton, List.not_mem_nil] at hf
    subst hf
    exact ⟨hsound, by simp⟩
  have hfields : ∀ f ∈ parts.flatMap (·.fields),
      (f.typeName ≠ "" ∧ Entry.IsName f.typeName) ∧ ∀ name ∈ f.names, Entry.IsItem name := by
    intro f hf
    obtain ⟨e, hsound, hf⟩ := hentry hf
    cases e <;> simp only [ofEntry, List.mem_singleton, List.not_mem_nil] at hf
    subst hf
    exact hsound
  refine ⟨fun f hf => ⟨?_, ?_⟩, byOperator.nodup_keys_grouped _, fun s hs => ?_, fun path hp => ?_,
    fun f hf => ⟨?_, fun name hname => ?_⟩, byType.nodup_keys_grouped _⟩
  · obtain ⟨⟨x, hx, hkey⟩, -⟩ := byOperator.mem_grouped hf
    exact (Prod.mk.inj hkey).1 ▸ (hfilters x hx).1
  · exact byOperator.values_ne_nil (fun x hx => (hfilters x hx).2) hf
  · obtain ⟨e, hsound, hs⟩ := hentry hs
    cases e <;> simp only [ofEntry, List.not_mem_nil] at hs
    exact hsound s hs
  · obtain ⟨e, hsound, hp⟩ := hentry hp
    cases e <;> simp only [ofEntry, List.not_mem_nil] at hp
    exact hsound path hp
  · obtain ⟨⟨x, hx, hkey⟩, -⟩ := byType.mem_grouped hf
    exact (show x.typeName = f.typeName from hkey) ▸ (hfields x hx).1
  · obtain ⟨x, hx, hname⟩ := byType.exists_of_mem_values hf hname
    exact (hfields x hx).2 name hname

theorem sound_of_alone {pair : List Char} {part : Params} (hp : IsPair pair)
    (h : alone pair = .ok part) : ∃ e : Entry, e.Sound ∧ part = ofEntry e := by
  rw [alone_eq hp.1 hp.2, map_eq_ok] at h
  obtain ⟨e, he, rfl⟩ := h
  obtain ⟨key, value, -, -, hreads⟩ := Entry.ofPair_eq_ok_iff.1 he
  exact ⟨e, Entry.sound_of_reads hreads, rfl⟩

/-- **What query strings stand for.** Whatever is read is well-formed, and whatever is well-formed
is read from what it is written as. -/
theorem parse_write :
    (∀ query p, parse query = .ok p → p.WellFormed) ∧
      ∀ p : Params, p.WellFormed → parse p.write = .ok p := by
  constructor
  · intro query p h
    obtain ⟨-, parts, hparts, rfl⟩ := parse_eq_ok_iff.1 h
    refine wellFormed_gather fun part hpart => ?_
    obtain ⟨pair, hpair, halone⟩ := exists_of_forall₂ hparts hpart
    exact sound_of_alone (isPair_of_mem_pairs hpair) halone
  · intro p h
    have hpairs : pairs p.write = p.entries.map Entry.text :=
      pairs_intercalate (List.forall_mem_map.2 fun e _ => Entry.isPair_text e)
    have hsound : ∀ e ∈ p.entries, e.Sound := fun e he => sound_of_mem_entries h he
    rw [parse, hpairs, foldlM_texts hsound (nodup_pageKeys_entries p), gather_entries h]

/-- Names with signs, and values that are not in order. -/
theorem parse_write_signs :
    let p : Params :=
      { filters := [⟨"ä.&=", .notAmong, ["1,2", "", "+%"]⟩, ⟨"ä.&=", .eq, ["?"]⟩],
        sort := [⟨"-a", .desc⟩, ⟨"b[", .asc⟩], fields := [⟨"T", []⟩, ⟨"#", ["]"]⟩],
        pageSize := some "zwölf" }
    parse p.write = .ok p :=
  parse_write.2 _ ⟨by decide, by decide, by decide, by decide, by decide, by decide⟩

end Params

end ResourceApi
