import Mathlib.Data.List.Count
import Mathlib.Data.List.Perm.Basic
import ResourceApi.Proofs.Grouping
import ResourceApi.Proofs.Query.Entries

/-!
# Gathered pairs

A query string is read pair by pair, and what is read so far is changed by the next pair. The
result is told here without that: each pair is read alone, and the parts are put together section
by section (`Params.gather`).

**Theorem (`Params.parse_eq_gather`).** A query string is read exactly if each of its pairs is read
alone and no page parameter is repeated. The result is gathered from the parts. A failure is that of
the first pair that fails alone or repeats a page parameter.

**Theorem (`Params.parse_insert_ignored`).** A parameter of a bucket that is not read changes
nothing if its value can be decoded.

A step keeps what the pairs so far are gathered into (`add_gather`), and a run is followed from its
last pair back (`foldlM_of_clean`). Pairs that are not clean have a first one that is faulty, and
nothing behind it is read (`foldlM_of_faulty`).
-/

namespace ResourceApi

namespace Params

/-! ## Parts -/

/-- The text behind a question mark that a query string begins with. -/
def body : List Char → List Char
  | '?' :: rest => rest
  | cs => cs

theorem pairs_eq (query : String) :
    pairs query = (Text.splitOn '&' (body query.toList)).filter (!·.isEmpty) := by
  unfold pairs body
  rfl

/-- Reads a pair alone. -/
def alone (pair : List Char) : Except ParamError Params := parse (String.ofList ('&' :: pair))

/-- What an entry alone is gathered into. -/
def ofEntry : Entry → Params
  | .filter field operator value => { filters := [⟨field, operator, [value]⟩] }
  | .sort keys => { sort := keys }
  | .includes paths => { includes := paths }
  | .fields typeName names => { fields := [⟨typeName, names⟩] }
  | .pageNumber value => { pageNumber := some value }
  | .pageSize value => { pageSize := some value }
  | .ignored => {}

theorem add_empty (e : Entry) : add {} e = .ok (ofEntry e) := by cases e <;> rfl

theorem alone_eq {pair : List Char} (hne : pair ≠ []) (hsep : '&' ∉ pair) :
    alone pair = (Entry.ofPair pair).map ofEntry := by
  have hpairs : pairs (String.ofList ('&' :: pair)) = [pair] := by
    rw [pairs_eq, String.toList_ofList]
    show (Text.splitOn '&' ('&' :: pair)).filter (!·.isEmpty) = [pair]
    rw [Text.splitOn, if_pos rfl, Text.splitOn_of_notMem hsep]
    simpa using hne
  rw [alone, parse, hpairs, List.foldlM_cons, addPair]
  cases Entry.ofPair pair with
  | error e => rfl
  | ok e =>
    show add {} e >>= _ = _
    rw [add_empty]
    rfl

/-- Filters by field and operator. -/
def byOperator : Grouping FilterParam (String × Operator) String where
  key f := (f.field, f.operator)
  values := FilterParam.values
  make k vs := ⟨k.1, k.2, vs⟩
  key_make _ _ := rfl
  values_make _ _ := rfl
  make_key_values _ := rfl

/-- Fields by type. -/
def byType : Grouping FieldsParam String String where
  key := FieldsParam.typeName
  values := FieldsParam.names
  make typeName names := ⟨typeName, names⟩
  key_make _ _ := rfl
  values_make _ _ := rfl
  make_key_values _ := rfl

theorem addFilter_eq (field : String) (operator : Operator) (value : String)
    (filters : List FilterParam) :
    addFilter field operator value filters =
      byOperator.collect ⟨field, operator, [value]⟩ filters := by
  induction filters with
  | nil => rfl
  | cons f rest ih =>
    rw [addFilter, Grouping.collect, ih]
    simp only [byOperator, Prod.mk.injEq]

theorem addFields_eq (typeName : String) (names : List String) (fields : List FieldsParam) :
    addFields typeName names fields = byType.collect ⟨typeName, names⟩ fields := by
  induction fields with
  | nil => rfl
  | cons f rest ih =>
    rw [addFields, Grouping.collect, ih]
    rfl

/-- Puts parts together: filters and fields by their keys, the rest in order. -/
def gather (parts : List Params) : Params where
  filters := byOperator.grouped (parts.flatMap (·.filters))
  sort := parts.flatMap (·.sort)
  includes := parts.flatMap (·.includes)
  fields := byType.grouped (parts.flatMap (·.fields))
  pageNumber := (parts.flatMap (·.pageNumber.toList)).head?
  pageSize := (parts.flatMap (·.pageSize.toList)).head?

/-- The page parameter of a key has a value. -/
def Given (p : Params) (key : String) : Prop :=
  key = "page[number]" ∧ p.pageNumber.isSome ∨ key = "page[size]" ∧ p.pageSize.isSome

/-! ## One step -/

theorem given_ofEntry {e : Entry} {key : String} :
    (ofEntry e).Given key ↔ e.pageKey? = some key := by
  cases e <;> simp [ofEntry, Given, Entry.pageKey?, eq_comm]

/-- A page parameter that has a value is refused. -/
theorem add_repeated {p : Params} {e : Entry} {key : String} (hkey : e.pageKey? = some key)
    (hgiven : p.Given key) : p.add e = .error (.repeatedPage key) := by
  cases e with
  | pageNumber value =>
    cases hkey
    have hsome : p.pageNumber.isSome := by simpa [Given] using hgiven
    rw [add, if_pos hsome]
  | pageSize value =>
    cases hkey
    have hsome : p.pageSize.isSome := by simpa [Given] using hgiven
    rw [add, if_pos hsome]
  | _ => cases hkey

theorem isSome_head?_flatMap {parts : List Params} {f : Params → Option String} :
    (parts.flatMap fun part => (f part).toList).head?.isSome ↔ ∃ part ∈ parts, (f part).isSome := by
  rw [List.isSome_head?, ne_eq, List.flatMap_eq_nil_iff]
  simp only [Option.toList_eq_nil_iff, not_forall, exists_prop, Option.isSome_iff_ne_none, ne_eq]

theorem given_gather {parts : List Params} {key : String} :
    (gather parts).Given key ↔ ∃ part ∈ parts, part.Given key := by
  have hnumber : (gather parts).pageNumber.isSome ↔ ∃ part ∈ parts, part.pageNumber.isSome :=
    isSome_head?_flatMap
  have hsize : (gather parts).pageSize.isSome ↔ ∃ part ∈ parts, part.pageSize.isSome :=
    isSome_head?_flatMap
  unfold Given
  rw [hnumber, hsize]
  constructor
  · rintro (⟨hkey, part, hpart, hsome⟩ | ⟨hkey, part, hpart, hsome⟩)
    · exact ⟨part, hpart, .inl ⟨hkey, hsome⟩⟩
    · exact ⟨part, hpart, .inr ⟨hkey, hsome⟩⟩
  · rintro ⟨part, hpart, ⟨hkey, hsome⟩ | ⟨hkey, hsome⟩⟩
    · exact .inl ⟨hkey, part, hpart, hsome⟩
    · exact .inr ⟨hkey, part, hpart, hsome⟩

/-- An entry that comes last is added to what is gathered from the parts before it. -/
theorem add_gather {parts : List Params} {e : Entry}
    (h : ∀ key, e.pageKey? = some key → ¬ (gather parts).Given key) :
    (gather parts).add e = .ok (gather (parts ++ [ofEntry e])) := by
  cases e with
  | filter field operator value =>
    simp only [add, gather, addFilter_eq, Grouping.collect_grouped, ofEntry, List.flatMap_append,
      List.flatMap_singleton, Option.toList_none, List.append_nil]
  | fields typeName names =>
    simp only [add, gather, addFields_eq, Grouping.collect_grouped, ofEntry, List.flatMap_append,
      List.flatMap_singleton, Option.toList_none, List.append_nil]
  | pageNumber value =>
    have hnone : (gather parts).pageNumber = none := by
      rw [← Option.not_isSome_iff_eq_none]
      exact fun hsome => h _ rfl (.inl ⟨rfl, hsome⟩)
    have hempty : parts.flatMap (·.pageNumber.toList) = [] := List.head?_eq_none_iff.1 hnone
    rw [add, hnone]
    simp [gather, ofEntry, hempty]
  | pageSize value =>
    have hnone : (gather parts).pageSize = none := by
      rw [← Option.not_isSome_iff_eq_none]
      exact fun hsome => h _ rfl (.inr ⟨rfl, hsome⟩)
    have hempty : parts.flatMap (·.pageSize.toList) = [] := List.head?_eq_none_iff.1 hnone
    rw [add, hnone]
    simp [gather, ofEntry, hempty]
  | _ =>
    simp only [add, gather, ofEntry, List.flatMap_append, List.flatMap_singleton,
      Option.toList_none, List.append_nil]

/-! ## Runs -/

/-- What the text between two separators can be. -/
def IsPair (pair : List Char) : Prop := pair ≠ [] ∧ '&' ∉ pair

theorem isPair_of_mem_pairs {query : String} {pair : List Char} (h : pair ∈ pairs query) :
    IsPair pair := by
  rw [pairs_eq, List.mem_filter] at h
  exact ⟨by simpa using h.2, Text.notMem_of_mem_splitOn h.1⟩

/-- Pairs that each are read alone, with every page parameter at most once. -/
structure Clean (ps : List (List Char)) : Prop where
  alone : ∀ pair ∈ ps, ∃ part, alone pair = .ok part
  once : ∀ key ∈ Entry.pageKeys, ps.countP (Entry.key? · = some key) ≤ 1

/-- What is wrong with a pair that comes after others. -/
inductive Faulty (before : List (List Char)) (pair : List Char) : ParamError → Prop
  | alone {e : ParamError} : alone pair = .error e → Faulty before pair e
  | repeated {key : String} {part : Params} {earlier : List Char} :
      Params.alone pair = .ok part → key ∈ Entry.pageKeys → Entry.key? pair = some key →
      earlier ∈ before → Entry.key? earlier = some key → Faulty before pair (.repeatedPage key)

/-- Pairs with the parts that they are read as. -/
abbrev Parts (ps : List (List Char)) (parts : List Params) : Prop :=
  List.Forall₂ (fun pair part => alone pair = .ok part) ps parts

theorem given_alone {pair : List Char} {part : Params} {key : String} (hp : IsPair pair)
    (h : alone pair = .ok part) :
    part.Given key ↔ key ∈ Entry.pageKeys ∧ Entry.key? pair = some key := by
  rw [alone_eq hp.1 hp.2, map_eq_ok] at h
  obtain ⟨e, he, rfl⟩ := h
  obtain ⟨k, value, hk, -, hreads⟩ := Entry.ofPair_eq_ok_iff.1 he
  rw [given_ofEntry, Entry.pageKey?_of_reads hreads, hk]
  constructor
  · intro h
    split at h
    · rename_i hmem
      cases h
      exact ⟨hmem, rfl⟩
    · cases h
  · rintro ⟨hmem, he⟩
    cases he
    exact if_pos hmem

theorem given_gather_of_parts {ps : List (List Char)} {parts : List Params} {key : String}
    (hps : ∀ pair ∈ ps, IsPair pair) (h : Parts ps parts) :
    (gather parts).Given key ↔ key ∈ Entry.pageKeys ∧ ∃ pair ∈ ps, Entry.key? pair = some key := by
  rw [given_gather]
  constructor
  · rintro ⟨part, hpart, hgiven⟩
    obtain ⟨pair, hpair, halone⟩ := exists_of_forall₂ h hpart
    obtain ⟨hkey, hpk⟩ := (given_alone (hps pair hpair) halone).1 hgiven
    exact ⟨hkey, pair, hpair, hpk⟩
  · rintro ⟨hkey, pair, hpair, hpk⟩
    obtain ⟨part, hpart, halone⟩ := exists_of_forall₂ h.flip hpair
    exact ⟨part, hpart, (given_alone (hps pair hpair) halone).2 ⟨hkey, hpk⟩⟩

section

variable {ps : List (List Char)} {parts : List Params} {pair : List Char}

/-- A pair that is read alone and repeats nothing is put behind the parts before it. -/
theorem addPair_gather {part : Params} (hps : ∀ p ∈ ps, IsPair p) (hp : IsPair pair)
    (h : Parts ps parts) (halone : alone pair = .ok part)
    (hnew : ∀ key ∈ Entry.pageKeys, Entry.key? pair = some key →
      ∀ p ∈ ps, Entry.key? p ≠ some key) :
    addPair (gather parts) pair = .ok (gather (parts ++ [part])) := by
  have hgiven (key : String) : part.Given key ↔
      key ∈ Entry.pageKeys ∧ Entry.key? pair = some key := given_alone hp halone
  rw [alone_eq hp.1 hp.2, map_eq_ok] at halone
  obtain ⟨e, he, rfl⟩ := halone
  refine bind_eq_ok.2 ⟨e, he, add_gather fun key hkey hbefore => ?_⟩
  obtain ⟨hmem, hk⟩ := (hgiven key).1 (given_ofEntry.2 hkey)
  obtain ⟨-, p, hp, hpk⟩ := (given_gather_of_parts hps h).1 hbefore
  exact hnew key hmem hk p hp hpk

/-- A faulty pair ends the run with its fault. -/
theorem addPair_faulty {e : ParamError} (hps : ∀ p ∈ ps, IsPair p) (hp : IsPair pair)
    (h : Parts ps parts) (hfaulty : Faulty ps pair e) :
    addPair (gather parts) pair = .error e := by
  cases hfaulty with
  | alone halone =>
    rw [alone_eq hp.1 hp.2] at halone
    unfold addPair
    cases he : Entry.ofPair pair with
    | ok entry => rw [he] at halone; cases halone
    | error d => rw [he] at halone; cases halone; rfl
  | @repeated key part earlier halone hmem hk hearlier hek =>
    have hgiven := (given_alone hp halone).2 ⟨hmem, hk⟩
    rw [alone_eq hp.1 hp.2, map_eq_ok] at halone
    obtain ⟨entry, he, rfl⟩ := halone
    unfold addPair
    rw [he]
    exact add_repeated (given_ofEntry.1 hgiven)
      ((given_gather_of_parts hps h).2 ⟨hmem, earlier, hearlier, hek⟩)

end

theorem clean_append {ps : List (List Char)} {pair : List Char} : Clean (ps ++ [pair]) ↔
    Clean ps ∧ (∃ part, alone pair = .ok part) ∧ ∀ key ∈ Entry.pageKeys,
      Entry.key? pair = some key → ∀ p ∈ ps, Entry.key? p ≠ some key := by
  have hcount (key : String) : (ps ++ [pair]).countP (Entry.key? · = some key) ≤ 1 ↔
      ps.countP (Entry.key? · = some key) ≤ 1 ∧
        (Entry.key? pair = some key → ∀ p ∈ ps, Entry.key? p ≠ some key) := by
    rw [List.countP_append, List.countP_singleton]
    by_cases hk : Entry.key? pair = some key
    · rw [if_pos (by simpa using hk), Nat.add_le_add_iff_right, Nat.le_zero, List.countP_eq_zero]
      simp only [decide_eq_true_eq, hk, true_imp_iff, ne_eq]
      refine ⟨fun h => ⟨?_, h⟩, And.right⟩
      rw [List.countP_eq_zero.2 (by simpa using h)]
      exact Nat.zero_le 1
    · simp [hk]
  constructor
  · intro h
    refine ⟨⟨fun p hp => h.alone p (by simp [hp]), fun key hkey => ?_⟩, h.alone pair (by simp),
      fun key hkey => ?_⟩
    · exact ((hcount key).1 (h.once key hkey)).1
    · exact ((hcount key).1 (h.once key hkey)).2
  · rintro ⟨h, halone, hnew⟩
    refine ⟨fun p hp => ?_, fun key hkey => (hcount key).2 ⟨h.once key hkey, hnew key hkey⟩⟩
    rcases List.mem_append.1 hp with hp | hp
    · exact h.alone p hp
    · exact List.mem_singleton.1 hp ▸ halone

/-- **A run over clean pairs** gathers their parts. -/
theorem foldlM_of_clean {ps : List (List Char)} (hps : ∀ pair ∈ ps, IsPair pair) (h : Clean ps) :
    ∃ parts, Parts ps parts ∧ ps.foldlM addPair {} = .ok (gather parts) := by
  induction ps using List.reverseRecOn with
  | nil => exact ⟨[], .nil, rfl⟩
  | append_singleton ps pair ih =>
    obtain ⟨hclean, ⟨part, halone⟩, hnew⟩ := clean_append.1 h
    have hpairs : ∀ p ∈ ps, IsPair p := fun p hp => hps p (by simp [hp])
    have hpair := hps pair (by simp)
    obtain ⟨parts, hparts, hrun⟩ := ih hpairs hclean
    refine ⟨parts ++ [part], List.rel_append hparts (.cons halone .nil), ?_⟩
    rw [List.foldlM_append, hrun]
    show [pair].foldlM addPair (gather parts) = _
    rw [List.foldlM_cons, addPair_gather hpairs hpair hparts halone hnew]
    rfl

/-- Pairs are clean, or there is a first one that is faulty. -/
theorem clean_or_faulty (ps : List (List Char)) : Clean ps ∨
    ∃ before pair after e, ps = before ++ pair :: after ∧ Clean before ∧ Faulty before pair e := by
  induction ps using List.reverseRecOn with
  | nil => exact .inl ⟨by simp, by simp⟩
  | append_singleton ps pair ih =>
    rcases ih with hclean | ⟨before, first, after, e, rfl, hbefore, hfaulty⟩
    · cases halone : alone pair with
      | error e => exact .inr ⟨ps, pair, [], e, rfl, hclean, .alone halone⟩
      | ok part =>
        by_cases hnew : ∀ key ∈ Entry.pageKeys, Entry.key? pair = some key →
            ∀ p ∈ ps, Entry.key? p ≠ some key
        · exact .inl (clean_append.2 ⟨hclean, ⟨part, halone⟩, hnew⟩)
        · push Not at hnew
          obtain ⟨key, hkey, hk, p, hp, hpk⟩ := hnew
          exact .inr ⟨ps, pair, [], _, rfl, hclean, .repeated halone hkey hk hp hpk⟩
    · exact .inr ⟨before, first, after ++ [pair], e, by simp, hbefore, hfaulty⟩

/-- **A run ends at the first faulty pair.** -/
theorem foldlM_of_faulty {before after : List (List Char)} {pair : List Char} {e : ParamError}
    (hps : ∀ p ∈ before ++ pair :: after, IsPair p) (hbefore : Clean before)
    (hfaulty : Faulty before pair e) : (before ++ pair :: after).foldlM addPair {} = .error e := by
  have hpairs : ∀ p ∈ before, IsPair p := fun p hp => hps p (by simp [hp])
  obtain ⟨parts, hparts, hrun⟩ := foldlM_of_clean hpairs hbefore
  rw [List.foldlM_append, hrun]
  show (pair :: after).foldlM addPair (gather parts) = _
  rw [List.foldlM_cons, addPair_faulty hpairs (hps pair (by simp)) hparts hfaulty]
  rfl

theorem parts_unique {ps : List (List Char)} {parts others : List Params} (h : Parts ps parts)
    (ho : Parts ps others) : parts = others :=
  List.right_unique_forall₂' (fun _ _ _ h₁ h₂ => Except.ok.inj (h₁.symm.trans h₂)) h ho

/-! ## Order -/

/-- The bucket that the key of a pair names. -/
def bucket? (pair : List Char) : Option String := (Entry.key? pair).map Entry.bucketOf

/-- An entry belongs to the bucket that the key names. -/
theorem bucket?_eq_of_ofPair {pair : List Char} {e : Entry} {bucket : String}
    (h : Entry.ofPair pair = .ok e) (he : e.bucket? = some bucket) :
    bucket? pair = some bucket := by
  obtain ⟨key, value, hkey, -, hreads⟩ := Entry.ofPair_eq_ok_iff.1 h
  rw [Entry.bucket?_of_reads hreads] at he
  split at he
  · rw [bucket?, hkey]
    exact he
  · cases he

/-- The same pairs, those of each bucket that is read in the same order. -/
structure Reordered (ps qs : List (List Char)) : Prop where
  perm : ps.Perm qs
  kept : ∀ bucket ∈ Entry.buckets,
    ps.filter (bucket? · = some bucket) = qs.filter (bucket? · = some bucket)

theorem Clean.of_perm {ps qs : List (List Char)} (h : Clean ps) (hp : ps.Perm qs) : Clean qs :=
  ⟨fun pair hpair => h.alone pair (hp.mem_iff.2 hpair),
    fun key hkey => hp.countP_eq _ ▸ h.once key hkey⟩

theorem Clean.exists_parts {ps : List (List Char)} (h : Clean ps) : ∃ parts, Parts ps parts := by
  obtain ⟨parts, hparts⟩ := exists_mapM_eq_ok h.alone
  exact ⟨parts, mapM_eq_ok.1 hparts⟩

section

variable {α : Type} {f : Params → List α} {bucket : String}

/-- A section that only entries of one bucket write to comes from the pairs of this bucket. -/
theorem flatMap_parts
    (hf : ∀ e : Entry, e.bucket? ≠ some bucket → f (ofEntry e) = [])
    {ps : List (List Char)} {parts : List Params} (hps : ∀ pair ∈ ps, IsPair pair)
    (h : Parts ps parts) : parts.flatMap f =
      (ps.filter (bucket? · = some bucket)).flatMap fun pair =>
        f ((alone pair).toOption.getD {}) := by
  induction h with
  | nil => rfl
  | @cons pair part ps parts halone _ ih =>
    obtain ⟨hpair, hps⟩ := List.forall_mem_cons.1 hps
    rw [List.flatMap_cons, ih hps]
    by_cases hk : bucket? pair = some bucket
    · rw [List.filter_cons_of_pos (by simpa using hk), List.flatMap_cons, halone]
      rfl
    · rw [List.filter_cons_of_neg (by simpa using hk)]
      rw [alone_eq hpair.1 hpair.2, map_eq_ok] at halone
      obtain ⟨e, he, rfl⟩ := halone
      rw [hf e fun hbucket => hk (bucket?_eq_of_ofPair he hbucket), List.nil_append]

/-- A section does not depend on the order of pairs of different buckets. -/
theorem flatMap_eq_of_reordered (hb : bucket ∈ Entry.buckets)
    (hf : ∀ e : Entry, e.bucket? ≠ some bucket → f (ofEntry e) = [])
    {ps qs : List (List Char)} {parts others : List Params} (hps : ∀ pair ∈ ps, IsPair pair)
    (hr : Reordered ps qs) (h : Parts ps parts) (ho : Parts qs others) :
    parts.flatMap f = others.flatMap f := by
  have hqs : ∀ pair ∈ qs, IsPair pair := fun pair hpair => hps pair (hr.perm.mem_iff.2 hpair)
  rw [flatMap_parts hf hps h, flatMap_parts hf hqs ho, hr.kept bucket hb]

end

/-- **What is gathered does not depend on the order of pairs of different buckets.** -/
theorem gather_eq_of_reordered {ps qs : List (List Char)} {parts others : List Params}
    (hps : ∀ pair ∈ ps, IsPair pair) (hr : Reordered ps qs) (h : Parts ps parts)
    (ho : Parts qs others) : gather parts = gather others := by
  have hsection {α : Type} {f : Params → List α} (bucket : String) (hb : bucket ∈ Entry.buckets)
      (hf : ∀ e : Entry, e.bucket? ≠ some bucket → f (ofEntry e) = []) :=
    flatMap_eq_of_reordered hb hf hps hr h ho
  have hfilters : parts.flatMap (·.filters) = others.flatMap (·.filters) :=
    hsection "filter" (by decide) fun e he => by cases e <;> first | rfl | exact absurd rfl he
  have hsort : parts.flatMap (·.sort) = others.flatMap (·.sort) :=
    hsection "sort" (by decide) fun e he => by cases e <;> first | rfl | exact absurd rfl he
  have hincludes : parts.flatMap (·.includes) = others.flatMap (·.includes) :=
    hsection "include" (by decide) fun e he => by cases e <;> first | rfl | exact absurd rfl he
  have hfields : parts.flatMap (·.fields) = others.flatMap (·.fields) :=
    hsection "fields" (by decide) fun e he => by cases e <;> first | rfl | exact absurd rfl he
  have hnumber : parts.flatMap (·.pageNumber.toList) = others.flatMap (·.pageNumber.toList) :=
    hsection "page" (by decide) fun e he => by cases e <;> first | rfl | exact absurd rfl he
  have hsize : parts.flatMap (·.pageSize.toList) = others.flatMap (·.pageSize.toList) :=
    hsection "page" (by decide) fun e he => by cases e <;> first | rfl | exact absurd rfl he
  simp only [gather, hfilters, hsort, hincludes, hfields, hnumber, hsize]

/-! ## Query strings -/

theorem parse_eq_ok_iff {query : String} {p : Params} :
    parse query = .ok p ↔
      Clean (pairs query) ∧ ∃ parts, Parts (pairs query) parts ∧ p = gather parts := by
  have hps : ∀ pair ∈ pairs query, IsPair pair := fun _ => isPair_of_mem_pairs
  constructor
  · intro h
    rcases clean_or_faulty (pairs query) with hclean | ⟨before, pair, after, e, hsplit, hb, hf⟩
    · obtain ⟨parts, hparts, hrun⟩ := foldlM_of_clean hps hclean
      exact ⟨hclean, parts, hparts, Except.ok.inj (h.symm.trans hrun)⟩
    · rw [parse, hsplit, foldlM_of_faulty (hsplit ▸ hps) hb hf] at h
      cases h
  · rintro ⟨hclean, parts, hparts, rfl⟩
    obtain ⟨others, hothers, hrun⟩ := foldlM_of_clean hps hclean
    rw [parse, hrun, parts_unique hparts hothers]

/-- **Reading pair by pair.** A query string is read exactly if each of its pairs is read alone and
no page parameter is repeated. The result is gathered from the parts, and is the same for every
order of pairs of different buckets. A failure is that of the first pair that fails alone or repeats
a page parameter. -/
theorem parse_eq_gather (query : String) :
    ((∃ p, parse query = .ok p) ↔ Clean (pairs query)) ∧
      (∀ p, parse query = .ok p →
        (∃ parts, List.Forall₂ (fun pair part => alone pair = .ok part) (pairs query) parts ∧
          p = gather parts) ∧
        ∀ other, Reordered (pairs query) (pairs other) → parse other = .ok p) ∧
      ∀ e, parse query = .error e ↔ ∃ before pair after,
        pairs query = before ++ pair :: after ∧ Clean before ∧ Faulty before pair e := by
  have hps : ∀ pair ∈ pairs query, IsPair pair := fun _ => isPair_of_mem_pairs
  refine ⟨⟨?_, ?_⟩, fun p hp => ?_, fun e => ⟨fun he => ?_, ?_⟩⟩
  · rintro ⟨p, hp⟩
    exact (parse_eq_ok_iff.1 hp).1
  · intro hclean
    obtain ⟨parts, hparts⟩ := hclean.exists_parts
    exact ⟨gather parts, parse_eq_ok_iff.2 ⟨hclean, parts, hparts, rfl⟩⟩
  · obtain ⟨hclean, parts, hparts, rfl⟩ := parse_eq_ok_iff.1 hp
    refine ⟨⟨parts, hparts, rfl⟩, fun other hr => ?_⟩
    have hother := hclean.of_perm hr.perm
    obtain ⟨others, hothers⟩ := hother.exists_parts
    exact parse_eq_ok_iff.2
      ⟨hother, others, hothers, gather_eq_of_reordered hps hr hparts hothers⟩
  · rcases clean_or_faulty (pairs query) with hclean | ⟨before, pair, after, d, hsplit, hb, hf⟩
    · obtain ⟨parts, hparts⟩ := hclean.exists_parts
      rw [parse_eq_ok_iff.2 ⟨hclean, parts, hparts, rfl⟩] at he
      cases he
    · rw [parse, hsplit, foldlM_of_faulty (hsplit ▸ hps) hb hf] at he
      cases he
      exact ⟨before, pair, after, hsplit, hb, hf⟩
  · rintro ⟨before, pair, after, hsplit, hb, hf⟩
    rw [parse, hsplit]
    exact foldlM_of_faulty (hsplit ▸ hps) hb hf

/-- Where every pair is an entry, the entries are added in order. -/
theorem parse_of_entries {query : String} {es : List Entry}
    (h : (pairs query).mapM Entry.ofPair = .ok es) : parse query = es.foldlM add {} := by
  rw [mapM_eq_ok] at h
  unfold parse
  generalize pairs query = ps at h
  generalize ({} : Params) = p
  induction h generalizing p with
  | nil => rfl
  | cons he _ ih =>
    rw [List.foldlM_cons, List.foldlM_cons, addPair, he]
    exact bind_congr (m := Except ParamError) ih

/-- The values of a filter keep their order, the rest can be written anywhere, and two pages are too
many. -/
theorem parse_shuffled :
    parse "?include=b&filter[x]=1&page%5Bsize%5D=1&sort=a&filter[x]=2" = .ok
      { filters := [⟨"x", .eq, ["1", "2"]⟩], sort := [⟨"a", .asc⟩], includes := ["b"],
        pageSize := some "1" } ∧
    parse "sort=a&page%5Bsize%5D=1&filter[x]=1&page[size]=2&sort=-" =
      .error (.repeatedPage "page[size]") := by
  have hentries : (pairs "sort=a&page%5Bsize%5D=1&filter[x]=1&filter[x]=2&include=b").mapM
      Entry.ofPair = .ok [.sort [⟨"a", .asc⟩], .pageSize "1", .filter "x" .eq "1",
        .filter "x" .eq "2", .includes ["b"]] := by decide +kernel
  have hsorted : parse "sort=a&page%5Bsize%5D=1&filter[x]=1&filter[x]=2&include=b" = .ok
      { filters := [⟨"x", .eq, ["1", "2"]⟩], sort := [⟨"a", .asc⟩], includes := ["b"],
        pageSize := some "1" } := (parse_of_entries hentries).trans (by decide +kernel)
  have honce : parse "sort=a&page%5Bsize%5D=1&filter[x]=1" = .ok
      { filters := [⟨"x", .eq, ["1"]⟩], sort := [⟨"a", .asc⟩], pageSize := some "1" } := by
    decide +kernel
  constructor
  · exact ((parse_eq_gather _).2.1 _ hsorted).2 _ ⟨by decide +kernel, by decide +kernel⟩
  · refine ((parse_eq_gather _).2.2 _).2 ⟨pairs "sort=a&page%5Bsize%5D=1&filter[x]=1",
      "page[size]=2".toList, ["sort=-".toList], by decide +kernel,
      (parse_eq_gather _).1.1 ⟨_, honce⟩, ?_⟩
    have halone : alone "page[size]=2".toList = .ok { pageSize := some "2" } := by decide +kernel
    have hearlier : "page%5Bsize%5D=1".toList ∈ pairs "sort=a&page%5Bsize%5D=1&filter[x]=1" := by
      decide +kernel
    exact .repeated halone (by decide) (by decide +kernel) hearlier (by decide +kernel)

/-! ## Parameters of other buckets -/

theorem body_append (cs ds : List Char) : body (cs ++ '&' :: ds) = body cs ++ '&' :: ds := by
  cases cs with
  | nil => rfl
  | cons c rest =>
    by_cases hc : c = '?'
    · subst hc
      rfl
    · simp [body, hc]

theorem pairs_of_toList {query : String} {cs : List Char} (h : query.toList = cs) :
    pairs query = (Text.splitOn '&' (body cs)).filter (!·.isEmpty) := h ▸ pairs_eq query

/-- Where a parameter is inserted, the pairs stay the same but for it. -/
theorem pairs_insert {before param after : String} (hafter : ∀ c ∈ after.toList.head?, c = '&')
    (hparam : '&' ∉ param.toList) : ∃ rest, pairs (before ++ after) = pairs before ++ rest ∧
      pairs (before ++ "&" ++ param ++ after) =
        pairs before ++ ([param.toList].filter (!·.isEmpty) ++ rest) := by
  have hwith : (before ++ "&" ++ param ++ after).toList =
      before.toList ++ '&' :: (param.toList ++ after.toList) := by
    simp [String.toList_append]
  cases hcs : after.toList with
  | nil =>
    refine ⟨[], ?_, ?_⟩
    · rw [List.append_nil, String.toList_eq_nil_iff.1 hcs, String.append_empty]
    · rw [pairs_of_toList hwith, hcs, body_append, Text.splitOn_append, List.append_nil,
        Text.splitOn_of_notMem hparam, List.filter_append, ← pairs_eq, List.append_nil]
  | cons c ds =>
    obtain rfl : c = '&' := hafter c (by rw [hcs]; rfl)
    have hwithout : (before ++ after).toList = before.toList ++ '&' :: ds := by
      rw [String.toList_append, hcs]
    refine ⟨(Text.splitOn '&' ds).filter (!·.isEmpty), ?_, ?_⟩
    · rw [pairs_of_toList hwithout, body_append, Text.splitOn_append, List.filter_append,
        ← pairs_eq]
    · rw [pairs_of_toList hwith, hcs, body_append, Text.splitOn_append, Text.splitOn_append,
        Text.splitOn_of_notMem hparam, List.filter_append, List.filter_append, ← pairs_eq]

/-- **Parameters of other buckets** change nothing wherever they are inserted, if their value can be
decoded. -/
theorem parse_insert_ignored {before param after key : String}
    (hafter : ∀ c ∈ after.toList.head?, c = '&') (hparam : '&' ∉ param.toList)
    (hkey : Entry.key? param.toList = some key) (hbucket : Entry.bucketOf key ∉ Entry.buckets)
    (hvalue : (Entry.value? param.toList).isSome) :
    parse (before ++ "&" ++ param ++ after) = parse (before ++ after) := by
  obtain ⟨value, hvalue⟩ := Option.isSome_iff_exists.1 hvalue
  have hignored : Entry.ofPair param.toList = .ok .ignored :=
    Entry.ofPair_eq_ok_iff.2 ⟨key, value, hkey, hvalue, .ignored hbucket⟩
  have hadd (p : Params) : addPair p param.toList = .ok p := by
    rw [addPair, hignored]
    rfl
  have hrun (p : Params) (rest : List (List Char)) :
      ([param.toList].filter (!·.isEmpty) ++ rest).foldlM addPair p = rest.foldlM addPair p := by
    rw [List.filter_cons]
    split
    · rw [List.filter_nil, List.singleton_append, List.foldlM_cons, hadd]
      rfl
    · rfl
  obtain ⟨rest, hwithout, hwith⟩ := pairs_insert hafter hparam
  rw [parse, parse, hwith, hwithout, List.foldlM_append, List.foldlM_append]
  simp only [hrun]

/-- A parameter of another bucket between two pairs, with brackets in its key. -/
theorem parse_insert_bracket :
    parse ("?filter[name]=x" ++ "&" ++ "x%5By=%C3%A4[1]" ++ "&sort=-a") =
      parse ("?filter[name]=x" ++ "&sort=-a") :=
  parse_insert_ignored (by simp) (by decide)
    (show Entry.key? "x%5By=%C3%A4[1]".toList = some "x[y" by decide +kernel) (by decide +kernel)
    (by decide +kernel)

/-- The value of a parameter of another bucket is decoded all the same, and what cannot be decoded
is a failure. -/
theorem parse_insert_malformed :
    Entry.key? "token=%FF".toList = some "token" ∧ Entry.bucketOf "token" ∉ Entry.buckets ∧
      '&' ∉ "token=%FF".toList ∧ parse ("filter[name]=x" ++ "&" ++ "token=%FF" ++ "") ≠
        parse ("filter[name]=x" ++ "") ∧
      parse ("filter[name]=x" ++ "&" ++ "token=%FF" ++ "") = .error (.malformed "%FF") ∧
      parse ("filter[name]=x" ++ "") = .ok { filters := [⟨"name", .eq, ["x"]⟩] } := by
  have hwith : parse ("filter[name]=x" ++ "&" ++ "token=%FF" ++ "") =
      .error (.malformed "%FF") := by decide +kernel
  have hwithout : parse ("filter[name]=x" ++ "") =
      .ok { filters := [⟨"name", .eq, ["x"]⟩] } := by decide +kernel
  refine ⟨by decide +kernel, by decide +kernel, by decide, ?_, hwith, hwithout⟩
  rw [hwith, hwithout]
  exact nofun

end Params

end ResourceApi
