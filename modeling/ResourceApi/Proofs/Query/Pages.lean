import ResourceApi.Proofs.Query.Acceptance
import ResourceApi.Sql.Query

/-!
# Pages

A page has a number and a size, and a plan shows it as a window: at most as many rows as the size
says, after those of the pages before (`Params.Asks`).

**Theorem (`Plan.window_of_compile`).** The window of a compiled plan is that of the page that is
asked for, and a plan for no page shows every row.

**Theorem (`Plan.compile_page`).** Whoever asks for another page has the same plan with another
window. Pages of one size, one after the other, show the beginning of a list (`flatMap_pages`).
-/

namespace ResourceApi

/-! ## The page that is asked for -/

/-- The parameters ask for the page of a number and a size. -/
structure Params.Asks (params : Params) (number size : Nat) : Prop where
  number : ∃ raw, params.pageNumber = some raw ∧ Plan.positive? raw = some number
  size : ∃ raw, params.pageSize = some raw ∧ Plan.positive? raw = some size

/-- The parameters ask for no page, or for the first one. -/
def Params.AsksFirst (params : Params) : Prop :=
  ∀ raw ∈ params.pageNumber, Plan.positive? raw = some 1

instance (params : Params) : Decidable params.AsksFirst :=
  inferInstanceAs (Decidable (∀ raw ∈ params.pageNumber, Plan.positive? raw = some 1))

variable {r : Registry} {schema : Schema} {params : Params} {id : Option String} {plan : Plan}

namespace Plan

theorem pos_of_positive? {raw : String} {n : Nat} (h : positive? raw = some n) : 0 < n :=
  of_decide_eq_true (Option.filter_eq_some_iff.1 h).2

theorem compilePage_eq_nil_cases {number size : Option String}
    (h : (compilePage number size).2 = []) :
    (number = none ∧ size = none ∧ (compilePage number size).1 = none) ∨
      ∃ rawNumber rawSize n k, number = some rawNumber ∧ size = some rawSize ∧
        positive? rawNumber = some n ∧ positive? rawSize = some k ∧
        (compilePage number size).1 = some (min k maxWindow, min ((n - 1) * k) maxWindow) := by
  cases number with
  | none => cases size <;> simp_all [compilePage]
  | some number =>
    cases size with
    | none => simp [compilePage] at h
    | some size =>
      cases hn : positive? number <;> cases hs : positive? size <;> simp_all [compilePage]

/-- **The window of a compiled plan** is that of the page that is asked for. -/
theorem window_of_compile (h : compile r schema params id = .ok plan) :
    (params.pageNumber = none ∧ params.pageSize = none ∧ plan.limit = none ∧ plan.offset = none) ∨
      ∃ number size, params.Asks number size ∧ plan.limit = some (min size maxWindow) ∧
        plan.offset = some (min ((number - 1) * size) maxWindow) := by
  unfold compile at h
  dsimp only at h
  split at h
  · rename_i hnone
    cases h
    simp only [List.isEmpty_iff, List.append_eq_nil_iff] at hnone
    rcases compilePage_eq_nil_cases hnone.2 with ⟨hn, hs, hw⟩ |
      ⟨rawNumber, rawSize, n, k, hn, hs, hrn, hrs, hw⟩
    · exact .inl ⟨hn, hs, by rw [hw]; rfl, by rw [hw]; rfl⟩
    · have hasks : params.Asks n k := ⟨⟨rawNumber, hn, hrn⟩, ⟨rawSize, hs, hrs⟩⟩
      exact .inr ⟨n, k, hasks, by rw [hw]; rfl, by rw [hw]; rfl⟩
  · cases h

end Plan

/-! ## Other pages -/

namespace Plan

/-- The plan with the window of a page. -/
def page (plan : Plan) (number size : Nat) : Plan :=
  { plan with
    limit := some (min size maxWindow), offset := some (min ((number - 1) * size) maxWindow) }

theorem compilePage_of_positive? {rawNumber rawSize : String} {number size : Nat}
    (hnumber : positive? rawNumber = some number) (hsize : positive? rawSize = some size) :
    compilePage (some rawNumber) (some rawSize) =
      (some (min size maxWindow, min ((number - 1) * size) maxWindow), []) := by
  simp [compilePage, hnumber, hsize]

/-- **Another page has the same plan**, but for the window. -/
theorem compile_page {number size n : Nat} {raw : String}
    (h : compile r schema params id = .ok plan) (hasks : params.Asks number size)
    (hraw : positive? raw = some n) :
    compile r schema { params with pageNumber := some raw } id = .ok (plan.page n size) := by
  obtain ⟨rawNumber, hrawNumber, hnumber⟩ := hasks.number
  obtain ⟨rawSize, hrawSize, hsize⟩ := hasks.size
  unfold compile at h ⊢
  dsimp only at h ⊢
  rw [hrawNumber, hrawSize, compilePage_of_positive? hnumber hsize] at h
  rw [hrawSize, compilePage_of_positive? hraw hsize]
  split at h
  · rename_i hnone
    cases h
    rw [if_pos hnone]
    rfl
  · cases h

theorem key_of_compileSortKey {nodes : List IncludeNode} {param : SortParam} {key : SortKey}
    (h : compileSortKey r schema nodes param = .ok key) :
    key = ⟨Path.ofText param.field, param.direction⟩ := by
  unfold compileSortKey at h
  obtain ⟨owner, -, h⟩ := bind_eq_ok.1 h
  obtain ⟨-, h⟩ := guard_eq_ok h
  obtain ⟨-, h⟩ := guard_eq_ok h
  exact (pure_eq_ok.1 h).symm

/-- **The sort keys of a plan** are those that are asked for. -/
theorem sort_of_compile (h : compile r schema params id = .ok plan) :
    plan.sort = params.sort.map fun param => ⟨Path.ofText param.field, param.direction⟩ := by
  obtain ⟨-, -, -, hsort⟩ := parts_of_compile h
  obtain ⟨-, -, -, hnone, -⟩ := compile_isOk_iff.1 ⟨plan, h⟩
  rw [hsort]
  exact sortOut_map_eq hnone fun _ _ => key_of_compileSortKey

end Plan

/-! ## Windows -/

variable {α : Type}

/-- The greatest bound may stand for every greater one: no list is longer. -/
theorem window_min (limit offset : Option Nat) {xs : List α} (h : xs.length ≤ Plan.maxWindow) :
    window (limit.map (min · Plan.maxWindow)) (offset.map (min · Plan.maxWindow)) xs =
      window limit offset xs := by
  have hdrop (before : Nat) : xs.drop (min before Plan.maxWindow) = xs.drop before := by
    rcases Nat.le_total before Plan.maxWindow with hle | hle
    · rw [Nat.min_eq_left hle]
    · have hbefore : xs.length ≤ before := Nat.le_trans h hle
      rw [Nat.min_eq_right hle, List.drop_of_length_le h, List.drop_of_length_le hbefore]
  have hrest : xs.drop ((offset.map (min · Plan.maxWindow)).getD 0) = xs.drop (offset.getD 0) := by
    cases offset with
    | none => rfl
    | some before => exact hdrop before
  have hlength : (xs.drop (offset.getD 0)).length ≤ Plan.maxWindow :=
    Nat.le_trans (by rw [List.length_drop]; exact Nat.sub_le ..) h
  unfold window
  rw [hrest]
  cases limit with
  | none => rfl
  | some size =>
    show (xs.drop (offset.getD 0)).take (min size Plan.maxWindow) = _
    rw [← List.take_take, List.take_of_length_le hlength]

/-- A window within the bounds shows a page. -/
theorem window_page (size before : Nat) {xs : List α} (h : xs.length ≤ Plan.maxWindow) :
    window (some (min size Plan.maxWindow)) (some (min before Plan.maxWindow)) xs =
      (xs.drop before).take size :=
  window_min (some size) (some before) h

/-- **Pages of one size**, one after the other, show the beginning of a list. -/
theorem flatMap_pages (size : Nat) (xs : List α) (count : Nat) :
    (List.range count).flatMap (fun i => (xs.drop (i * size)).take size) =
      xs.take (count * size) := by
  induction count with
  | zero => simp
  | succ count ih =>
    rw [List.range_succ, List.flatMap_append, ih, Nat.succ_mul, List.take_add]
    simp

/-- How many elements a window shows depends only on how many there are. -/
theorem length_window_congr {β : Type} (limit offset : Option Nat) {xs : List α} {ys : List β}
    (h : xs.length = ys.length) :
    (window limit offset xs).length = (window limit offset ys).length := by
  unfold window
  cases limit <;> simp [h]

namespace Plan

/-- **The first page is empty only where there is nothing to show.** -/
theorem window_eq_nil_iff (h : compile r schema params id = .ok plan) (hfirst : params.AsksFirst)
    (xs : List α) : window plan.limit plan.offset xs = [] ↔ xs = [] := by
  rcases window_of_compile h with ⟨-, -, hlimit, hoffset⟩ | ⟨number, size, hasks, hlimit, hoffset⟩
  · rw [hlimit, hoffset]
    rfl
  · obtain ⟨raw, hraw, hnumber⟩ := hasks.number
    obtain ⟨_, -, hsize⟩ := hasks.size
    obtain rfl : number = 1 := Option.some.inj (hnumber.symm.trans (hfirst raw hraw))
    have hpos : min size maxWindow ≠ 0 :=
      Nat.ne_of_gt (Nat.lt_min.2 ⟨pos_of_positive? hsize, by decide⟩)
    have hwindow : window plan.limit plan.offset xs = xs.take (min size maxWindow) := by
      rw [hlimit, hoffset, Nat.sub_self, Nat.zero_mul, Nat.zero_min]
      rfl
    rw [hwindow, List.take_eq_nil_iff]
    exact or_iff_right hpos

end Plan

end ResourceApi
