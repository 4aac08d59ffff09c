import Mathlib.Data.List.Range
import ResourceApi.Proofs.Sql.Paging

/-!
# Windows in SQL

The window of a plan is written at the end of its query, and the database reads the numbers there
(`Extent.ofClause?`): signed 64-bit integers, since a longer literal is read as a floating point
number. Numbers are therefore cut at the greatest integer, when a page is compiled and again when a
window is written.

**Theorem (`Plan.windows_unbounded`).** Neither loses a row of a list that is no longer than that
integer. A page of number `n` and size `s` shows the rows from `(n - 1) * s` up to `n * s`, computed
without any bound, so that the pages of one size are disjoint and together show every row. The
window of any other plan shows what it asks for, too.

The compiled numbers are the ones that are computed in 64-bit words (`Plan.wordWindow`), with a
product that is checked.
-/

namespace ResourceApi

variable {α : Type}

/-! ## Numerals -/

namespace Text.Numeral

/-- The text is a decimal numeral of a number: its digits, after a plus sign or without. -/
def Denotes (raw : String) (n : Nat) : Prop :=
  ∃ digits, digits ≠ [] ∧ (∀ c ∈ digits, c.isDigit) ∧
    (raw.toList = digits ∨ raw.toList = '+' :: digits) ∧ Nat.ofDigitChars 10 digits 0 = n

theorem toList_toString (n : Nat) : (toString n).toList = Nat.toDigits 10 n := Nat.toList_repr

theorem isDigit_of_mem_toString {n : Nat} {c : Char} (h : c ∈ (toString n).toList) :
    c.isDigit = true :=
  Nat.isDigit_of_mem_toDigits (by decide) (Nat.le_refl 10) (toList_toString n ▸ h)

/-- The usual numeral of a number denotes it. -/
theorem denotes_toString (n : Nat) : Denotes (toString n) n :=
  ⟨(toString n).toList, toList_toString n ▸ Nat.toDigits_ne_nil, fun _ => isDigit_of_mem_toString,
    .inl rfl, by rw [toList_toString, Nat.ofDigitChars_ten_toDigits]⟩

/-- A numeral of an unsigned 64-bit integer is read. -/
theorem nat?_of_denotes {raw : String} {n : Nat} (h : Denotes raw n) (hn : n < 2 ^ 64) :
    nat? raw = some n := by
  obtain ⟨digits, hne, hdigits, hraw, hvalue⟩ := h
  exact nat?_eq_some_iff.2 ⟨digits, hne, hdigits, hraw, hvalue, Nat.le_of_lt_succ hn⟩

/-- The usual numeral of a signed 64-bit integer is read. -/
theorem int?_toString {n : Nat} (h : n ≤ Plan.maxWindow) : int? (toString n) = some (n : Int) := by
  have hdigits : natural? (toString n).toList = some n := natural?_eq_some_iff.2
    ⟨toList_toString n ▸ Nat.toDigits_ne_nil, fun _ => isDigit_of_mem_toString,
      by rw [toList_toString]; exact Nat.ofDigitChars_ten_toDigits⟩
  have hsign : takeSign (toString n).toList = (false, (toString n).toList) := by
    obtain ⟨rest, hrest, -⟩ | ⟨rest, hrest, -⟩ | hsign := takeSign_cases (toString n).toList
    · exact absurd (isDigit_of_mem_toString (hrest ▸ List.mem_cons_self)) (by decide)
    · exact absurd (isDigit_of_mem_toString (hrest ▸ List.mem_cons_self)) (by decide)
    · exact hsign
  have hbounds : minInt ≤ (n : Int) ∧ (n : Int) ≤ maxInt := by
    unfold minInt maxInt
    unfold Plan.maxWindow at h
    omega
  unfold int?
  rw [hsign]
  dsimp only
  rw [hdigits]
  simpa using hbounds

end Text.Numeral

/-! ## Windows as the database reads them -/

/-- A window as the database takes it: how many rows it shows, all of them if the number is
negative, and how many it passes over before that. -/
structure Extent where
  limit : Int
  offset : Int
  deriving DecidableEq, Repr

namespace Extent

open Text.Numeral (int?)

/-- The window that a clause asks for. A literal that is no signed 64-bit integer is none that a
window can have. -/
def ofClause? (clause : String) : Option Extent :=
  match Text.pieces ' ' clause with
  | [""] => some ⟨-1, 0⟩
  | ["", "LIMIT", limit] => (int? limit).map (⟨·, 0⟩)
  | ["", "LIMIT", limit, "OFFSET", offset] =>
    (int? limit).bind fun limit => (int? offset).map (⟨limit, ·⟩)
  | _ => none

/-- The rows that the window shows. -/
def rows (e : Extent) (xs : List α) : List α :=
  let rest := xs.drop e.offset.toNat
  match e.limit with
  | .ofNat n => rest.take n
  | .negSucc _ => rest

/-- The window with bounds in range. -/
def ofBounds (limit offset : Option Nat) : Extent :=
  ⟨limit.elim (-1) Int.ofNat, offset.elim 0 Int.ofNat⟩

theorem rows_ofBounds (limit offset : Option Nat) (xs : List α) :
    (ofBounds limit offset).rows xs = window limit offset xs := by
  cases limit <;> cases offset <;> rfl

/-! A clause is cut into its words, each of which stands behind a blank. -/

theorem pieces_words {words : List String} (h : ∀ word ∈ words, ' ' ∉ word.toList) :
    Text.pieces ' ' (String.ofList (words.flatMap fun word => ' ' :: word.toList)) =
      "" :: words := by
  have hjoined (words : List String) : (words.flatMap fun word => ' ' :: word.toList) =
      [' '].intercalate ([] :: words.map String.toList) := by
    induction words with
    | nil => rfl
    | cons word rest ih =>
      rw [List.flatMap_cons, ih, List.map_cons, List.intercalate_cons_cons]
      cases rest <;> simp [List.intercalate_cons_cons]
  have hblank : ∀ word ∈ [] :: words.map String.toList, ' ' ∉ word :=
    List.forall_mem_cons.2 ⟨List.not_mem_nil, List.forall_mem_map.2 h⟩
  rw [Text.pieces, String.toList_ofList, hjoined, Text.splitOn_intercalate hblank]
  simp

theorem ofClause?_limit {limit : String} (h : ' ' ∉ limit.toList) :
    ofClause? (" LIMIT " ++ limit) = (int? limit).map (⟨·, 0⟩) := by
  have hwords : " LIMIT " ++ limit =
      String.ofList (["LIMIT", limit].flatMap fun word => ' ' :: word.toList) :=
    String.toList_inj.1 (by simp)
  rw [ofClause?, hwords, pieces_words (by simp [h])]
  rfl

theorem ofClause?_offset {limit offset : String} (hlimit : ' ' ∉ limit.toList)
    (hoffset : ' ' ∉ offset.toList) : ofClause? (" LIMIT " ++ limit ++ " OFFSET " ++ offset) =
      (int? limit).bind fun limit => (int? offset).map (⟨limit, ·⟩) := by
  have hwords : " LIMIT " ++ limit ++ " OFFSET " ++ offset = String.ofList
      (["LIMIT", limit, "OFFSET", offset].flatMap fun word => ' ' :: word.toList) :=
    String.toList_inj.1 (by simp)
  rw [ofClause?, hwords, pieces_words (by simp [hlimit, hoffset])]
  rfl

/-- **A written window is read** with its numbers cut at the greatest integer. -/
theorem ofClause?_window (limit offset : Option Nat) :
    ofClause? (SelectQuery.window limit offset) = some (ofBounds
      (limit.map (min · Plan.maxWindow)) (offset.map (min · Plan.maxWindow))) := by
  have hint (n : Nat) : int? (toString (min n SelectQuery.maxBound)) =
      some (Int.ofNat (min n Plan.maxWindow)) :=
    Text.Numeral.int?_toString (Nat.min_le_right n Plan.maxWindow)
  have hblank (n : Nat) : ' ' ∉ (toString (min n SelectQuery.maxBound)).toList := fun h =>
    absurd (Text.Numeral.isDigit_of_mem_toString h) (by decide)
  unfold SelectQuery.window
  cases limit with
  | none =>
    cases offset with
    | none => decide +kernel
    | some before =>
      have hall : int? "-1" = some (-1) := by decide +kernel
      have hwords : " LIMIT -1 OFFSET " = " LIMIT " ++ "-1" ++ " OFFSET " := rfl
      dsimp only
      rw [hwords, ofClause?_offset (by decide) (hblank before), hall, hint]
      rfl
  | some size =>
    cases offset with
    | none =>
      dsimp only
      rw [ofClause?_limit (hblank size), hint]
      rfl
    | some before =>
      dsimp only
      rw [ofClause?_offset (hblank size) (hblank before), hint, hint]
      rfl

end Extent

/-- The rows that a written window shows. -/
def SelectQuery.shown (limit offset : Option Nat) (xs : List α) : Option (List α) :=
  (Extent.ofClause? (window limit offset)).map (·.rows xs)

/-- **A written window shows what it asks for**: no list is longer than the greatest integer. -/
theorem SelectQuery.shown_eq (limit offset : Option Nat) {xs : List α}
    (h : xs.length ≤ Plan.maxWindow) :
    shown limit offset xs = some (ResourceApi.window limit offset xs) := by
  rw [shown, Extent.ofClause?_window, Option.map_some, Extent.rows_ofBounds, window_min _ _ h]

/-- A query ends with its window. -/
theorem SelectQuery.sql_eq_append (q : SelectQuery) :
    q.sql = { q with limit := none, offset := none }.sql ++ window q.limit q.offset := by
  simp only [sql, source, String.append_assoc]
  rfl

/-! ## Pages in 64-bit words -/

namespace Plan

/-- The product of two words, if it is a word. -/
def checkedMul (a b : UInt64) : Option UInt64 :=
  if b = 0 ∨ a ≤ 0xffffffffffffffff / b then some (a * b) else none

/-- The greatest signed integer, as a word. -/
def maxWord : UInt64 := 0x7fffffffffffffff

/-- A word, cut at the greatest signed integer. -/
def cutWord (a : UInt64) : UInt64 := if a ≤ maxWord then a else maxWord

/-- The limit and the offset of a page, computed in words. -/
def wordWindow (number size : UInt64) : UInt64 × UInt64 :=
  (cutWord size, ((checkedMul (number - 1) size).map cutWord).getD maxWord)

theorem checkedMul_eq (a b : UInt64) :
    checkedMul a b = if a.toNat * b.toNat < 2 ^ 64 then some (a * b) else none := by
  have hiff : (b = 0 ∨ a ≤ 0xffffffffffffffff / b) ↔ a.toNat * b.toNat < 2 ^ 64 := by
    rw [UInt64.le_iff_toNat_le, UInt64.toNat_div, ← UInt64.toNat_inj]
    show b.toNat = 0 ∨ a.toNat ≤ (2 ^ 64 - 1) / b.toNat ↔ _
    rcases Nat.eq_zero_or_pos b.toNat with hzero | hpos
    · simp [hzero]
    · rw [Nat.le_div_iff_mul_le hpos]
      omega
  unfold checkedMul
  exact if_congr hiff rfl rfl

theorem toNat_cutWord (a : UInt64) : (cutWord a).toNat = min a.toNat maxWindow := by
  unfold cutWord
  by_cases h : a ≤ maxWord
  · rw [if_pos h]
    exact (Nat.min_eq_left (UInt64.le_iff_toNat_le.1 h)).symm
  · rw [if_neg h]
    exact (Nat.min_eq_right (Nat.le_of_not_le fun hle => h (UInt64.le_iff_toNat_le.2 hle))).symm

/-- **Nothing overflows**: the words are the numbers of the page. -/
theorem toNat_wordWindow {number size : Nat} (hn : 0 < number) (hnumber : number < 2 ^ 64)
    (hsize : size < 2 ^ 64) :
    (wordWindow (.ofNat number) (.ofNat size)).1.toNat = min size maxWindow ∧
      (wordWindow (.ofNat number) (.ofNat size)).2.toNat =
        min ((number - 1) * size) maxWindow := by
  have hword : (UInt64.ofNat size).toNat = size := UInt64.toNat_ofNat_of_lt' hsize
  have hbefore : (UInt64.ofNat number - 1).toNat = number - 1 := by
    have hone : (1 : UInt64) ≤ .ofNat number := by
      rw [UInt64.le_iff_toNat_le, UInt64.toNat_ofNat_of_lt' hnumber]
      exact hn
    rw [UInt64.toNat_sub_of_le _ _ hone, UInt64.toNat_ofNat_of_lt' hnumber]
    rfl
  refine ⟨by rw [wordWindow, toNat_cutWord, hword], ?_⟩
  rw [wordWindow, checkedMul_eq, hbefore, hword]
  split
  · rename_i hlt
    show (cutWord ((UInt64.ofNat number - 1) * UInt64.ofNat size)).toNat = _
    rw [toNat_cutWord, UInt64.toNat_mul, hbefore, hword, Nat.mod_eq_of_lt hlt]
  · rename_i hge
    show maxWindow = _
    unfold maxWindow
    omega

/-! ## Pages of a list -/

/-- The rows that a page shows: its window is compiled, written and read. -/
def pageRows (number size : String) (xs : List α) : Option (List α) :=
  (compilePage (some number) (some size)).1.bind fun bounds =>
    SelectQuery.shown (some bounds.1) (some bounds.2) xs

open Text.Numeral (Denotes)

theorem positive?_of_denotes {raw : String} {n : Nat} (h : Denotes raw n) (hpos : 0 < n)
    (hn : n < 2 ^ 64) : positive? raw = some n :=
  Option.filter_eq_some_iff.2 ⟨Text.Numeral.nat?_of_denotes h hn, decide_eq_true hpos⟩

variable {number size : String} {n s : Nat}

/-- The page of a number and a size is asked for, both in numerals of 64-bit words. -/
structure Page (number size : String) (n s : Nat) : Prop where
  number : Denotes number n
  size : Denotes size s
  number_pos : 0 < n
  size_pos : 0 < s
  number_lt : n < 2 ^ 64
  size_lt : s < 2 ^ 64

theorem Page.compilePage_eq (h : Page number size n s) :
    compilePage (some number) (some size) =
      (some (min s maxWindow, min ((n - 1) * s) maxWindow), []) :=
  compilePage_of_positive? (positive?_of_denotes h.number h.number_pos h.number_lt)
    (positive?_of_denotes h.size h.size_pos h.size_lt)

/-- **A page shows its rows.** -/
theorem Page.pageRows_eq (h : Page number size n s) {xs : List α} (hmax : xs.length ≤ maxWindow) :
    pageRows number size xs = some ((xs.drop ((n - 1) * s)).take s) := by
  rw [pageRows, h.compilePage_eq, Option.bind_some, SelectQuery.shown_eq _ _ hmax,
    window_page s _ hmax]

theorem extract_page (hpos : 0 < n) (xs : List α) :
    xs.extract ((n - 1) * s) (n * s) = (xs.drop ((n - 1) * s)).take s := by
  have hsize : n * s - (n - 1) * s = s := by
    rw [← Nat.sub_mul, Nat.sub_sub_self hpos, Nat.one_mul]
  rw [List.extract_eq_take_drop, hsize]

/-- A row of a page has its place in the page. -/
theorem place_of_mem_page {before : Nat} {xs : List α} {row : α × Nat}
    (h : row ∈ (xs.zipIdx.drop before).take s) : before ≤ row.2 ∧ row.2 < before + s := by
  obtain ⟨k, hk, rfl⟩ := List.mem_iff_getElem.1 h
  have hlt : k < s := Nat.lt_of_lt_of_le hk (List.length_take_le ..)
  rw [List.getElem_take, List.getElem_drop, List.getElem_zipIdx]
  dsimp only
  omega

/-- **Pages of one size are disjoint.** -/
theorem Page.disjoint {number' : String} {n' : Nat} (h : Page number size n s)
    (h' : Page number' size n' s) (hne : n ≠ n') {xs : List α} (hmax : xs.length ≤ maxWindow)
    {rows rows' : List (α × Nat)} (hrows : pageRows number size xs.zipIdx = some rows)
    (hrows' : pageRows number' size xs.zipIdx = some rows') : rows.Disjoint rows' := by
  have hlength : xs.zipIdx.length ≤ maxWindow := by rwa [List.length_zipIdx]
  obtain rfl := Option.some.inj ((h.pageRows_eq hlength).symm.trans hrows)
  obtain rfl := Option.some.inj ((h'.pageRows_eq hlength).symm.trans hrows')
  have hbefore {m k : Nat} (hm : 0 < m) (hlt : m < k) : (m - 1) * s + s ≤ (k - 1) * s := by
    rw [← Nat.succ_mul, Nat.succ_eq_add_one, Nat.sub_add_cancel hm]
    exact Nat.mul_le_mul_right s (Nat.le_sub_one_of_lt hlt)
  intro row hrow hrow'
  have hplace := place_of_mem_page hrow
  have hplace' := place_of_mem_page hrow'
  rcases Nat.lt_or_gt_of_ne hne with hlt | hlt
  · have := hbefore h.number_pos hlt
    omega
  · have := hbefore h'.number_pos hlt
    omega

/-- **Pages of one size show every row**, one after the other. -/
theorem flatten_pageRows (hsize : Denotes size s) (hpos : 0 < s) (hlt : s < 2 ^ 64) {xs : List α}
    (hmax : xs.length ≤ maxWindow) : ∃ pages : List (List α),
      ((List.range xs.length).map fun i => pageRows (toString (i + 1)) size xs) =
        pages.map some ∧ pages.flatten = xs := by
  refine ⟨(List.range xs.length).map fun i => (xs.drop (i * s)).take s, ?_, ?_⟩
  · rw [List.map_map]
    refine List.map_congr_left fun i hi => ?_
    have hnumber : i + 1 ≤ maxWindow := Nat.le_trans (List.mem_range.1 hi) hmax
    have hpage : Page (toString (i + 1)) size (i + 1) s :=
      ⟨Text.Numeral.denotes_toString _, hsize, Nat.succ_pos i, hpos,
        Nat.lt_of_le_of_lt hnumber (by decide), hlt⟩
    exact hpage.pageRows_eq hmax
  · rw [← List.flatMap_def, flatMap_pages]
    exact List.take_of_length_le (Nat.le_mul_of_pos_right _ hpos)

/-- **Windows show what is asked for without any bound**: those of pages, and those of all plans. -/
theorem windows_unbounded :
    (∀ number size n s, Page number size n s → ∃ limit offset,
      compilePage (some number) (some size) = (some (limit, offset), []) ∧
      limit ≤ 2 ^ 63 - 1 ∧ offset ≤ 2 ^ 63 - 1 ∧
      wordWindow (.ofNat n) (.ofNat s) = (.ofNat limit, .ofNat offset) ∧
      ∀ (α : Type) (xs : List α), xs.length ≤ 2 ^ 63 - 1 →
        SelectQuery.shown (some limit) (some offset) xs =
          some (xs.extract ((n - 1) * s) (n * s))) ∧
    (∀ size s, Denotes size s → 0 < s → s < 2 ^ 64 →
      ∀ (α : Type) (xs : List α), xs.length ≤ 2 ^ 63 - 1 →
        (∀ number number' n n', Page number size n s → Page number' size n' s → n ≠ n' →
          ∃ rows rows', pageRows number size xs.zipIdx = some rows ∧
            pageRows number' size xs.zipIdx = some rows' ∧ rows.Disjoint rows') ∧
        ∃ pages : List (List α),
          ((List.range xs.length).map fun i => pageRows (toString (i + 1)) size xs) =
            pages.map some ∧ pages.flatten = xs) ∧
    ∀ r schema plan select outputs, Statement.ofPlan r schema plan = .ok (select, outputs) →
      (∃ whole, Statement.ofPlan r schema { plan with limit := none, offset := none } =
          .ok (whole, outputs) ∧
        select.sql = whole.sql ++ SelectQuery.window plan.limit plan.offset) ∧
      ∀ (α : Type) (xs : List α), xs.length ≤ 2 ^ 63 - 1 →
        SelectQuery.shown plan.limit plan.offset xs = some (window plan.limit plan.offset xs) := by
  refine ⟨fun number size n s h => ?_, fun size s hsize hpos hlt α xs hmax => ⟨?_, ?_⟩,
    fun r schema plan select outputs h => ⟨?_, fun α xs hmax => SelectQuery.shown_eq _ _ hmax⟩⟩
  · have hwords := toNat_wordWindow h.number_pos h.number_lt h.size_lt
    refine ⟨_, _, h.compilePage_eq, Nat.min_le_right .., Nat.min_le_right .., ?_, ?_⟩
    · rw [← hwords.1, ← hwords.2, UInt64.ofNat_toNat, UInt64.ofNat_toNat]
    · intro α xs hmax
      rw [SelectQuery.shown_eq _ _ hmax, window_page s _ hmax, extract_page h.number_pos]
  · intro number number' n n' h h' hne
    have hlength : xs.zipIdx.length ≤ maxWindow := by rwa [List.length_zipIdx]
    exact ⟨_, _, h.pageRows_eq hlength, h'.pageRows_eq hlength,
      h.disjoint h' hne hmax (h.pageRows_eq hlength) (h'.pageRows_eq hlength)⟩
  · exact flatten_pageRows hsize hpos hlt hmax
  · refine ⟨{ select with limit := none, offset := none },
      Statement.ofPlan_window h none none, ?_⟩
    obtain ⟨hrenders, -⟩ := Statement.renders_ofPlan h
    rw [← hrenders.limit, ← hrenders.offset]
    exact select.sql_eq_append

/-- Every node behind more than there can be. -/
def farNodes : Plan where
  offset := some (2 ^ 64 - 1)

/-- A page past the last row shows nothing, and pages of two rows show five rows in turn. -/
theorem windows_far :
    Page "3000000000" "10000000000" 3000000000 10000000000 ∧ Page "2" "2" 2 2 ∧
    Page "3" "2" 3 2 ∧
    (∃ limit offset, compilePage (some "3000000000") (some "10000000000") =
        (some (limit, offset), []) ∧ offset ≤ 2 ^ 63 - 1 ∧
      SelectQuery.shown (some limit) (some offset) [1, 2, 3] = some []) ∧
    (∃ rows rows', pageRows "2" "2" [1, 2, 3, 4, 5].zipIdx = some rows ∧
      pageRows "3" "2" [1, 2, 3, 4, 5].zipIdx = some rows' ∧ rows.Disjoint rows') ∧
    (∃ pages : List (List Nat),
      ((List.range 5).map fun i => pageRows (toString (i + 1)) "2" [1, 2, 3, 4, 5]) =
        pages.map some ∧ pages.flatten = [1, 2, 3, 4, 5]) ∧
    ∃ select outputs, Statement.ofPlan tree treeNode farNodes = .ok (select, outputs) ∧
      (∃ whole, Statement.ofPlan tree treeNode { farNodes with limit := none, offset := none } =
          .ok (whole, outputs) ∧
        select.sql = whole.sql ++ " LIMIT -1 OFFSET 9223372036854775807") ∧
      SelectQuery.shown none (some (2 ^ 64 - 1)) [1, 2, 3] = some [] := by
  have hsize : Denotes "2" 2 := Text.Numeral.denotes_toString 2
  have hfar : Page "3000000000" "10000000000" 3000000000 10000000000 :=
    ⟨Text.Numeral.denotes_toString 3000000000, Text.Numeral.denotes_toString 10000000000, by decide,
      by decide, by decide, by decide⟩
  have hsecond : Page "2" "2" 2 2 := ⟨hsize, hsize, by decide, by decide, by decide, by decide⟩
  have hthird : Page "3" "2" 3 2 :=
    ⟨Text.Numeral.denotes_toString 3, hsize, by decide, by decide, by decide, by decide⟩
  obtain ⟨hpages, hall, hplans⟩ := windows_unbounded
  obtain ⟨limit, offset, hcompiled, -, hoffset, -, hshown⟩ := hpages _ _ _ _ hfar
  obtain ⟨hdisjoint, hflatten⟩ :=
    hall "2" 2 hsize (by decide) (by decide) Nat [1, 2, 3, 4, 5] (by decide)
  obtain ⟨hsql, hwindow⟩ := hplans tree treeNode farNodes _ _ rfl
  exact ⟨hfar, hsecond, hthird, ⟨limit, offset, hcompiled, hoffset, hshown Nat _ (by decide)⟩,
    hdisjoint _ _ _ _ hsecond hthird (by decide), hflatten, _, _, rfl, hsql,
    hwindow Nat _ (by decide)⟩

end Plan

end ResourceApi
