import Mathlib.Data.List.TakeWhile
import ResourceApi.Proofs.Result
import ResourceApi.Query.Params

/-!
# The grammar of pairs

What the key and the value of a pair stand for, told without the reader (`Entry.Reads`): a key is
the name of a bucket with segments in square brackets behind it, and each bucket has its own rules
for the segments and the value.

**Theorem (`Entry.ofKey_eq_ok_iff`).** The reader makes an entry of a key and a value exactly if
they stand for it.
-/

namespace ResourceApi

namespace Entry

/-! ## Keys -/

/-- A text without square brackets. -/
def IsName (s : String) : Prop := '[' ∉ s.toList ∧ ']' ∉ s.toList

instance (s : String) : Decidable (IsName s) := inferInstanceAs (Decidable (_ ∧ _))

theorem isName_iff {s : String} : IsName s ↔ ∀ c ∈ s.toList, isNameChar c := by
  constructor
  · intro h c hc
    rw [isNameChar, Bool.and_eq_true, bne_iff_ne, bne_iff_ne]
    exact ⟨fun he => h.1 (he ▸ hc), fun he => h.2 (he ▸ hc)⟩
  · intro h
    exact ⟨fun hc => absurd (h _ hc) (by decide), fun hc => absurd (h _ hc) (by decide)⟩

/-- Segments in square brackets. -/
def bracketed (segments : List String) : List Char :=
  segments.flatMap fun s => '[' :: (s.toList ++ [']'])

theorem bracketed_cons (s : String) (segments : List String) :
    bracketed (s :: segments) = '[' :: (s.toList ++ ']' :: bracketed segments) := by
  simp [bracketed]

/-- Segments without brackets are found again. -/
theorem segments?_bracketed {segments : List String} (h : ∀ s ∈ segments, IsName s) :
    segments? (bracketed segments) = some segments := by
  induction segments with
  | nil => rw [bracketed, List.flatMap_nil, segments?]
  | cons s rest ih =>
    obtain ⟨hs, hrest⟩ := List.forall_mem_cons.1 h
    have htake : (s.toList ++ ']' :: bracketed rest).takeWhile isNameChar = s.toList := by
      rw [List.takeWhile_append_of_pos (isName_iff.1 hs), List.takeWhile_cons_of_neg (by decide),
        List.append_nil]
    have hdrop : (s.toList ++ ']' :: bracketed rest).dropWhile isNameChar =
        ']' :: bracketed rest := by
      rw [List.dropWhile_append_of_pos (isName_iff.1 hs), List.dropWhile_cons_of_neg (by decide)]
    rw [bracketed_cons, segments?, if_neg (by simp)]
    split
    · rename_i after hafter
      rw [hdrop] at hafter
      cases hafter
      rw [ih hrest, htake, String.ofList_toList]
      rfl
    · rename_i hnot
      exact absurd hdrop (hnot _)

/-- What segments are read from is the segments in brackets. -/
theorem eq_bracketed_of_segments? {cs : List Char} {segments : List String}
    (h : segments? cs = some segments) :
    cs = bracketed segments ∧ ∀ s ∈ segments, IsName s := by
  fun_induction segments? cs generalizing segments with
  | case1 =>
    cases h
    exact ⟨rfl, by simp⟩
  | case2 => cases h
  | case3 c rest hc after hafter ih =>
    obtain ⟨others, hothers, rfl⟩ := Option.map_eq_some_iff.1 h
    obtain ⟨rfl, hnames⟩ := ih hothers
    obtain rfl : c = '[' := by simpa using hc
    have hsplit := List.takeWhile_append_dropWhile (p := isNameChar) (l := rest)
    rw [hafter] at hsplit
    refine ⟨?_, List.forall_mem_cons.2 ⟨?_, hnames⟩⟩
    · rw [bracketed_cons, String.toList_ofList, hsplit]
    · rw [isName_iff, String.toList_ofList]
      exact fun d hd => List.mem_takeWhile_imp hd
  | case4 => cases h

/-- The bucket that a key belongs to. -/
def bucketOf (key : String) : String := String.ofList (key.toList.takeWhile (· != '['))

/-- The key of a bucket and segments. -/
def keyOf (bucket : String) (segments : List String) : String :=
  String.ofList (bucket.toList ++ bracketed segments)

theorem takeWhile_bracketed (segments : List String) :
    (bracketed segments).takeWhile (· != '[') = [] := by
  cases segments with
  | nil => rfl
  | cons s rest =>
    rw [bracketed_cons]
    exact List.takeWhile_cons_of_neg (by decide)

theorem dropWhile_bracketed (segments : List String) :
    (bracketed segments).dropWhile (· != '[') = bracketed segments := by
  cases segments with
  | nil => rfl
  | cons s rest =>
    rw [bracketed_cons]
    exact List.dropWhile_cons_of_neg (by decide)

/-- The bucket and the segments of a key are found again. -/
theorem read_keyOf (bucket : String) (segments : List String) (hb : IsName bucket)
    (hs : ∀ s ∈ segments, IsName s) :
    String.ofList ((keyOf bucket segments).toList.takeWhile (· != '[')) = bucket ∧
      segments? ((keyOf bucket segments).toList.dropWhile (· != '[')) = some segments := by
  have hall : ∀ c ∈ bucket.toList, (c != '[') = true :=
    fun c hc => bne_iff_ne.2 fun he => hb.1 (he ▸ hc)
  rw [keyOf, String.toList_ofList, List.takeWhile_append_of_pos hall,
    List.dropWhile_append_of_pos hall, takeWhile_bracketed, dropWhile_bracketed, List.append_nil,
    String.ofList_toList]
  exact ⟨rfl, segments?_bracketed hs⟩

/-- A key with segments is made of its bucket and its segments. -/
theorem eq_keyOf_of_segments? {key : String} {segments : List String}
    (h : segments? (key.toList.dropWhile (· != '[')) = some segments) :
    key = keyOf (bucketOf key) segments ∧ ∀ s ∈ segments, IsName s := by
  obtain ⟨hrest, hnames⟩ := eq_bracketed_of_segments? h
  refine ⟨?_, hnames⟩
  rw [keyOf, bucketOf, String.toList_ofList, ← hrest, List.takeWhile_append_dropWhile,
    String.ofList_toList]

/-! ## What a key and a value say -/

/-- The segments of a filter's key name a field and an operator. The operator for equality can be
left out, and an empty segment can follow. -/
def Selects (field : String) (operator : Operator) (segments : List String) : Prop :=
  segments ∈ [[field, operator.name], [field, operator.name, ""]] ∨
    operator = .eq ∧ segments ∈ [[field], [field, ""]]

/-- A key and a value stand for an entry. -/
inductive Reads (key value : String) : Entry → Prop
  | ignored : bucketOf key ∉ buckets → Reads key value .ignored
  | filter {field : String} {operator : Operator} {segments : List String} :
      key = keyOf "filter" segments → Selects field operator segments → field ≠ "" →
      IsName field → Reads key value (.filter field operator value)
  | sort {items : List String} {keys : List SortParam} :
      key = keyOf "sort" [] → items? value = some items → items.mapM sortParam? = some keys →
      Reads key value (.sort keys)
  | includes {paths : List String} :
      key = keyOf "include" [] → items? value = some paths → Reads key value (.includes paths)
  | fields {typeName : String} {names : List String} :
      key = keyOf "fields" [typeName] → typeName ≠ "" → IsName typeName →
      items? value = some names → Reads key value (.fields typeName names)
  | pageNumber : key = keyOf "page" ["number"] → Reads key value (.pageNumber value)
  | pageSize : key = keyOf "page" ["size"] → Reads key value (.pageSize value)

theorem isName_operator (o : Operator) : IsName o.name := by cases o <;> decide

theorem eq_name_of_ofName? {name : String} {o : Operator} (h : Operator.ofName? name = some o) :
    name = o.name := by
  have hname := List.find?_some h
  exact (of_decide_eq_true hname).symm

theorem name_inj {o p : Operator} (h : o.name = p.name) : o = p := by
  have ho := Operator.ofName?_name o
  rw [h, Operator.ofName?_name] at ho
  exact (Option.some.inj ho).symm

theorem isName_of_selects {field : String} {operator : Operator} {segments : List String}
    (h : Selects field operator segments) (hf : IsName field) : ∀ s ∈ segments, IsName s := by
  have ho := isName_operator operator
  have he : IsName "" := by decide
  rcases h with h | ⟨-, h⟩ <;> simp only [List.mem_cons, List.not_mem_nil, or_false] at h <;>
    rcases h with rfl | rfl <;> simp [hf, ho, he]

theorem mem_of_selects {field : String} {operator : Operator} {segments : List String}
    (h : Selects field operator segments) : field ∈ segments := by
  rcases h with h | ⟨-, h⟩ <;> simp only [List.mem_cons, List.not_mem_nil, or_false] at h <;>
    rcases h with rfl | rfl <;> simp

/-- The entry of a filter whose operator is named. -/
theorem named_eq_ok_iff (key field operator value : String) {e : Entry} :
    (match Operator.ofName? operator with
      | none => Except.error (ParamError.unknownOperator key operator)
      | some o =>
        if field.isEmpty then .error (.malformed key)
        else .ok (Entry.filter field o value)) = .ok e ↔
      ∃ o : Operator, operator = o.name ∧ field ≠ "" ∧ e = .filter field o value := by
  constructor
  · intro h
    split at h
    · cases h
    · rename_i o ho
      split at h
      · cases h
      · rename_i hf
        cases h
        exact ⟨o, eq_name_of_ofName? ho, fun he => hf (String.isEmpty_iff.2 he), rfl⟩
  · rintro ⟨o, rfl, hf, rfl⟩
    rw [Operator.ofName?_name]
    exact if_neg fun he => hf (String.isEmpty_iff.1 he)

theorem ofFilter_eq_ok_iff {key value : String} {segments : List String} {e : Entry} :
    ofFilter key segments value = .ok e ↔ ∃ field operator, Selects field operator segments ∧
      field ≠ "" ∧ e = .filter field operator value := by
  constructor
  · intro h
    unfold ofFilter at h
    dsimp only at h
    split at h
    · rename_i field
      obtain ⟨o, ho, hf, rfl⟩ := (named_eq_ok_iff key field Operator.eq.name value).1 h
      exact ⟨field, o, .inr ⟨name_inj ho.symm, by simp⟩, hf, rfl⟩
    · rename_i field
      obtain ⟨o, ho, hf, rfl⟩ := (named_eq_ok_iff key field Operator.eq.name value).1 h
      exact ⟨field, o, .inr ⟨name_inj ho.symm, by simp⟩, hf, rfl⟩
    · rename_i field operator _
      obtain ⟨o, rfl, hf, rfl⟩ := (named_eq_ok_iff key field operator value).1 h
      exact ⟨field, o, .inl (by simp), hf, rfl⟩
    · rename_i field operator
      obtain ⟨o, rfl, hf, rfl⟩ := (named_eq_ok_iff key field operator value).1 h
      exact ⟨field, o, .inl (by simp), hf, rfl⟩
    · cases h
  · rintro ⟨field, operator, h, hf, rfl⟩
    have hnamed := (named_eq_ok_iff key field operator.name value).2 ⟨operator, rfl, hf, rfl⟩
    rcases h with h | ⟨rfl, h⟩ <;> simp only [List.mem_cons, List.not_mem_nil, or_false] at h <;>
      rcases h with rfl | rfl
    · cases operator <;> exact hnamed
    · cases operator <;> exact hnamed
    · exact hnamed
    · exact hnamed

/-- **The grammar of keys.** An entry is made of exactly the keys and values that stand for it. -/
theorem ofKey_eq_ok_iff {key value : String} {e : Entry} :
    ofKey key value = .ok e ↔ Reads key value e := by
  constructor
  · intro h
    unfold ofKey at h
    dsimp only at h
    split at h
    · rename_i hb
      cases h
      exact .ignored hb
    split at h
    · cases h
    rename_i segments hs
    obtain ⟨hkey, hnames⟩ := eq_keyOf_of_segments? hs
    unfold bucketOf at hkey
    split at h
    · rename_i hb
      rw [hb] at hkey
      obtain ⟨field, operator, hsel, hf, rfl⟩ := ofFilter_eq_ok_iff.1 h
      exact .filter hkey hsel hf (hnames field (mem_of_selects hsel))
    · rename_i hb
      rw [hb] at hkey
      split at h
      · rename_i keys hitems
        cases h
        obtain ⟨items, hitems, hkeys⟩ := Option.bind_eq_some_iff.1 hitems
        exact .sort hkey hitems hkeys
      · cases h
    · rename_i hb
      rw [hb] at hkey
      split at h
      · rename_i paths hitems
        cases h
        exact .includes hkey hitems
      · cases h
    · rename_i typeName hb
      rw [hb] at hkey
      split at h
      · cases h
      rename_i hne
      split at h
      · rename_i names hitems
        cases h
        exact .fields hkey (fun he => hne (String.isEmpty_iff.2 he)) (hnames typeName (by simp))
          hitems
      · cases h
    · rename_i hb
      rw [hb] at hkey
      cases h
      exact .pageNumber hkey
    · rename_i hb
      rw [hb] at hkey
      cases h
      exact .pageSize hkey
    · split at h <;> cases h
    · cases h
  · intro h
    cases h with
    | ignored hb => exact if_pos hb
    | @filter field operator segments hkey hsel hf hname =>
      obtain ⟨hbucket, hsegments⟩ :=
        read_keyOf "filter" segments (by decide) (isName_of_selects hsel hname)
      subst hkey
      simp only [ofKey, hbucket, hsegments]
      exact ofFilter_eq_ok_iff.2 ⟨_, _, hsel, hf, rfl⟩
    | sort hkey hitems hkeys =>
      obtain ⟨hbucket, hsegments⟩ := read_keyOf "sort" [] (by decide) (by decide)
      subst hkey
      simp [ofKey, buckets, hbucket, hsegments, hitems, hkeys]
    | includes hkey hitems =>
      obtain ⟨hbucket, hsegments⟩ := read_keyOf "include" [] (by decide) (by decide)
      subst hkey
      simp [ofKey, buckets, hbucket, hsegments, hitems]
    | @fields typeName _ hkey hne hname hitems =>
      obtain ⟨hbucket, hsegments⟩ :=
        read_keyOf "fields" [typeName] (by decide) (by simpa using hname)
      subst hkey
      simp [ofKey, buckets, hbucket, hsegments, hne, hitems]
    | pageNumber hkey =>
      obtain ⟨hbucket, hsegments⟩ := read_keyOf "page" ["number"] (by decide) (by decide)
      subst hkey
      simp [ofKey, buckets, hbucket, hsegments]
    | pageSize hkey =>
      obtain ⟨hbucket, hsegments⟩ := read_keyOf "page" ["size"] (by decide) (by decide)
      subst hkey
      simp [ofKey, buckets, hbucket, hsegments]

/-! ## Pairs -/

/-- The key and the value of a pair as they are written. -/
def cut (pair : List Char) : List Char × List Char := (Text.cutFirst '=' pair).getD (pair, [])

/-- The decoded key of a pair. -/
def key? (pair : List Char) : Option String := Text.Percent.decodeForm? (String.ofList (cut pair).1)

/-- The decoded value of a pair. -/
def value? (pair : List Char) : Option String :=
  Text.Percent.decodeForm? (String.ofList (cut pair).2)

theorem decode_eq_ok_iff {raw : List Char} {s : String} :
    decode raw = .ok s ↔ Text.Percent.decodeForm? (String.ofList raw) = some s := by
  unfold decode
  cases Text.Percent.decodeForm? (String.ofList raw) <;> simp

/-- An entry is made of the decoded key and the decoded value of a pair. -/
theorem ofPair_eq_ok_iff {pair : List Char} {e : Entry} : ofPair pair = .ok e ↔
    ∃ key value, key? pair = some key ∧ value? pair = some value ∧ Reads key value e := by
  show (decode (cut pair).1 >>= fun key => decode (cut pair).2 >>= fun value =>
    ofKey key value) = _ ↔ _
  simp only [bind_eq_ok, decode_eq_ok_iff, ofKey_eq_ok_iff]
  constructor
  · rintro ⟨key, hkey, value, hvalue, h⟩
    exact ⟨key, value, hkey, hvalue, h⟩
  · rintro ⟨key, value, hkey, hvalue, h⟩
    exact ⟨key, hkey, value, hvalue, h⟩

/-! ## Buckets of entries -/

/-- The bucket that an entry belongs to. -/
def bucket? : Entry → Option String
  | filter .. => some "filter"
  | sort _ => some "sort"
  | includes _ => some "include"
  | fields .. => some "fields"
  | pageNumber _ | pageSize _ => some "page"
  | ignored => none

/-- The key of a page parameter. -/
def pageKey? : Entry → Option String
  | pageNumber _ => some "page[number]"
  | pageSize _ => some "page[size]"
  | _ => none

/-- The keys of page parameters. -/
def pageKeys : List String := ["page[number]", "page[size]"]

theorem bucketOf_keyOf {bucket : String} (hb : bucket ∈ buckets) (segments : List String) :
    bucketOf (keyOf bucket segments) = bucket := by
  have hall : ∀ c ∈ bucket.toList, (c != '[') = true :=
    List.all_eq_true.1 ((show ∀ b ∈ buckets, b.toList.all (· != '[') by decide) bucket hb)
  rw [bucketOf, keyOf, String.toList_ofList, List.takeWhile_append_of_pos hall, takeWhile_bracketed,
    List.append_nil, String.ofList_toList]

/-- An entry belongs to the bucket of its key, if that is one that is read. -/
theorem bucket?_of_reads {key value : String} {e : Entry} (h : Reads key value e) :
    e.bucket? = if bucketOf key ∈ buckets then some (bucketOf key) else none := by
  cases h with
  | ignored hb => rw [if_neg hb, bucket?]
  | _ =>
    subst key
    rw [bucketOf_keyOf (by decide), if_pos (by decide), bucket?]

theorem bucketOf_of_mem_pageKeys {key : String} (h : key ∈ pageKeys) : bucketOf key = "page" :=
  (show ∀ k ∈ pageKeys, bucketOf k = "page" by decide) key h

/-- Page parameters have keys of their own. -/
theorem pageKey?_of_reads {key value : String} {e : Entry} (h : Reads key value e) :
    e.pageKey? = if key ∈ pageKeys then some key else none := by
  have hnot (hb : bucketOf key ≠ "page") : none = if key ∈ pageKeys then some key else none :=
    (if_neg fun hmem => hb (bucketOf_of_mem_pageKeys hmem)).symm
  cases h with
  | pageNumber hkey =>
    rw [show key = "page[number]" from hkey.trans (by decide)]
    rfl
  | pageSize hkey =>
    rw [show key = "page[size]" from hkey.trans (by decide)]
    rfl
  | ignored hb =>
    refine hnot ?_
    intro he
    exact hb (he ▸ by decide)
  | _ =>
    refine hnot ?_
    subst key
    rw [bucketOf_keyOf (by decide)]
    decide

end Entry

end ResourceApi
