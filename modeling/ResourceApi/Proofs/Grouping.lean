import Mathlib.Data.List.Induction
import Mathlib.Data.List.Nodup

/-!
# Groups

Elements with a key and several values are collected by key: one element for each key, at the place
where the key comes first, with all its values in order (`Grouping.grouped`).

**Theorems (`Grouping.collect_grouped`, `Grouping.grouped_pieces`).** Collecting elements one after
the other makes these groups. Elements with different keys that are taken apart value by value are
made again.
-/

namespace ResourceApi

/-- Elements that are made of a key and a list of values. -/
structure Grouping (α κ ν : Type) where
  key : α → κ
  values : α → List ν
  make : κ → List ν → α
  key_make (k : κ) (vs : List ν) : key (make k vs) = k
  values_make (k : κ) (vs : List ν) : values (make k vs) = vs
  make_key_values (x : α) : make (key x) (values x) = x

namespace Grouping

variable {α κ ν : Type} [DecidableEq κ] (g : Grouping α κ ν)

/-- One element for each key, at the first place of the key, with all values in order. -/
def grouped (xs : List α) : List α :=
  (xs.map g.key).eraseDups.map fun k => g.make k ((xs.filter (g.key · = k)).flatMap g.values)

/-- Adds an element's values to the one of its key, or puts the element at the end. -/
def collect (x : α) : List α → List α
  | [] => [x]
  | y :: rest =>
    if g.key y = g.key x then g.make (g.key y) (g.values y ++ g.values x) :: rest
    else y :: collect x rest

theorem eraseDups_concat (ks : List κ) (k : κ) :
    (ks ++ [k]).eraseDups = if k ∈ ks then ks.eraseDups else ks.eraseDups ++ [k] := by
  rw [List.eraseDups_append]
  by_cases hk : k ∈ ks
  · simp [List.removeAll, hk]
  · simp [List.removeAll, hk, List.eraseDups_cons]

theorem nodup_eraseDups (ks : List κ) : ks.eraseDups.Nodup := by
  induction ks using List.reverseRecOn with
  | nil => simp
  | append_singleton ks k ih =>
    rw [eraseDups_concat]
    split
    · exact ih
    · rename_i hk
      rw [← List.concat_eq_append]
      exact ih.concat fun h => hk (List.mem_eraseDups.1 h)

theorem keys_grouped (xs : List α) : (g.grouped xs).map g.key = (xs.map g.key).eraseDups := by
  rw [grouped, List.map_map]
  refine (List.map_congr_left fun k _ => ?_).trans (List.map_id _)
  exact g.key_make _ _

/-- An element is collected among elements with different keys. -/
theorem collect_map {ks : List κ} (hn : ks.Nodup) (f : κ → List ν) (x : α) :
    g.collect x (ks.map fun k => g.make k (f k)) =
      if g.key x ∈ ks then ks.map fun k => g.make k (f k ++ if k = g.key x then g.values x else [])
      else ks.map (fun k => g.make k (f k)) ++ [x] := by
  induction ks with
  | nil => rfl
  | cons k ks ih =>
    obtain ⟨hk, hks⟩ := List.nodup_cons.1 hn
    rw [List.map_cons, collect, g.key_make, g.values_make, ih hks]
    by_cases he : k = g.key x
    · have hrest : ks.map (fun l => g.make l (f l)) =
          ks.map fun l => g.make l (f l ++ if l = g.key x then g.values x else []) := by
        refine List.map_congr_left fun l hl => ?_
        have hne : l ≠ g.key x := fun h => hk (he ▸ h ▸ hl)
        rw [if_neg hne, List.append_nil]
      rw [if_pos he, if_pos (by simp [he]), hrest, List.map_cons, if_pos he]
    · rw [if_neg he]
      by_cases hm : g.key x ∈ ks
      · rw [if_pos hm, if_pos (List.mem_cons_of_mem _ hm), List.map_cons, if_neg he,
          List.append_nil]
      · rw [if_neg hm, if_neg (by simp [Ne.symm he, hm])]
        rfl

/-- **Collecting groups.** An element that comes last is collected into the groups of the ones
before it. -/
theorem collect_grouped (xs : List α) (x : α) :
    g.collect x (g.grouped xs) = g.grouped (xs ++ [x]) := by
  have hvalues (k : κ) : ((xs ++ [x]).filter (g.key · = k)).flatMap g.values =
      (xs.filter (g.key · = k)).flatMap g.values ++ if k = g.key x then g.values x else [] := by
    rw [List.filter_append, List.flatMap_append]
    by_cases hk : g.key x = k
    · simp [hk]
    · simp [hk, Ne.symm hk]
  rw [grouped, g.collect_map (nodup_eraseDups _), grouped, List.map_append, List.map_singleton,
    eraseDups_concat]
  simp only [hvalues, List.mem_eraseDups]
  split
  · rfl
  · rename_i hm
    rw [List.map_append, List.map_singleton, if_pos rfl]
    congr 1
    · refine List.map_congr_left fun k hk => ?_
      have hne : k ≠ g.key x := fun he => hm (he ▸ List.mem_eraseDups.1 hk)
      rw [if_neg hne, List.append_nil]
    · have hnone : xs.filter (g.key · = g.key x) = [] := by
        rw [List.filter_eq_nil_iff]
        intro y hy he
        exact hm (of_decide_eq_true he ▸ List.mem_map_of_mem hy)
      rw [hnone, List.flatMap_nil, List.nil_append, g.make_key_values]

/-! ## Groups taken apart -/

theorem mem_grouped {xs : List α} {y : α} (h : y ∈ g.grouped xs) :
    (∃ x ∈ xs, g.key x = g.key y) ∧
      g.values y = (xs.filter (g.key · = g.key y)).flatMap g.values := by
  obtain ⟨k, hk, rfl⟩ := List.mem_map.1 h
  obtain ⟨x, hx, rfl⟩ := List.mem_map.1 (List.mem_eraseDups.1 hk)
  rw [g.key_make, g.values_make]
  exact ⟨⟨x, hx, rfl⟩, rfl⟩

theorem mem_grouped_iff {xs : List α} {y : α} : y ∈ g.grouped xs ↔
    (∃ x ∈ xs, g.key x = g.key y) ∧
      g.values y = (xs.filter (g.key · = g.key y)).flatMap g.values := by
  refine ⟨g.mem_grouped, ?_⟩
  rintro ⟨⟨x, hx, hkey⟩, hvalues⟩
  refine List.mem_map.2 ⟨g.key y, List.mem_eraseDups.2 (List.mem_map.2 ⟨x, hx, hkey⟩), ?_⟩
  rw [← hvalues, g.make_key_values]

/-- Every value of a group comes from an element. -/
theorem exists_of_mem_values {xs : List α} {y : α} {v : ν} (h : y ∈ g.grouped xs)
    (hv : v ∈ g.values y) : ∃ x ∈ xs, v ∈ g.values x := by
  rw [(g.mem_grouped h).2, List.mem_flatMap] at hv
  obtain ⟨x, hx, hv⟩ := hv
  exact ⟨x, (List.mem_filter.1 hx).1, hv⟩

/-- A group has values if its elements have. -/
theorem values_ne_nil {xs : List α} {y : α} (hxs : ∀ x ∈ xs, g.values x ≠ [])
    (h : y ∈ g.grouped xs) : g.values y ≠ [] := by
  obtain ⟨⟨x, hx, hkey⟩, hvalues⟩ := g.mem_grouped h
  rw [hvalues, ne_eq, List.flatMap_eq_nil_iff]
  exact fun hall => hxs x hx (hall x (List.mem_filter.2 ⟨hx, by simpa using hkey⟩))

theorem nodup_keys_grouped (xs : List α) : ((g.grouped xs).map g.key).Nodup := by
  rw [keys_grouped]
  exact nodup_eraseDups _

/-- What is collected goes past elements with other keys. -/
theorem collect_append {x : α} {xs : List α} (h : g.key x ∉ xs.map g.key) (ys : List α) :
    g.collect x (xs ++ ys) = xs ++ g.collect x ys := by
  induction xs with
  | nil => rfl
  | cons y xs ih =>
    rw [List.map_cons, List.mem_cons, not_or] at h
    rw [List.cons_append, collect, if_neg (Ne.symm h.1), ih h.2]
    rfl

/-- Elements with different keys are groups. -/
theorem grouped_of_nodup {xs : List α} (h : (xs.map g.key).Nodup) : g.grouped xs = xs := by
  induction xs using List.reverseRecOn with
  | nil => rfl
  | append_singleton xs x ih =>
    rw [List.map_append, List.map_singleton, List.nodup_append] at h
    obtain ⟨hxs, -, hx⟩ := h
    have hnew : g.key x ∉ xs.map g.key := fun hmem => hx _ hmem _ (by simp) rfl
    have hlast := g.collect_append hnew []
    rw [List.append_nil] at hlast
    rw [← collect_grouped, ih hxs, hlast]
    rfl

/-- An element for every value of an element. -/
def pieces (x : α) : List α := (g.values x).map fun v => g.make (g.key x) [v]

/-- The pieces of one element are collected behind others. -/
theorem grouped_append_pieces {xs ys : List α} {k : κ} (h : g.grouped xs = ys)
    (hk : k ∉ ys.map g.key) {vs : List ν} (hvs : vs ≠ []) :
    g.grouped (xs ++ vs.map fun v => g.make k [v]) = ys ++ [g.make k vs] := by
  induction vs using List.reverseRecOn with
  | nil => exact absurd rfl hvs
  | append_singleton vs v ih =>
    have hkey : g.key (g.make k [v]) ∉ ys.map g.key := by rwa [g.key_make]
    rw [List.map_append, List.map_singleton, ← List.append_assoc, ← collect_grouped]
    by_cases hempty : vs = []
    · subst hempty
      have hlast := g.collect_append hkey []
      rw [List.append_nil] at hlast
      rw [List.map_nil, List.append_nil, h, hlast]
      rfl
    · rw [ih hempty, g.collect_append hkey, collect, if_pos (by simp only [g.key_make]), g.key_make,
        g.values_make, g.values_make]

/-- **Pieces make the elements again,** if these have values and different keys. -/
theorem grouped_pieces {xs : List α} (h : (xs.map g.key).Nodup) (hv : ∀ x ∈ xs, g.values x ≠ []) :
    g.grouped (xs.flatMap g.pieces) = xs := by
  induction xs using List.reverseRecOn with
  | nil => rfl
  | append_singleton xs x ih =>
    rw [List.map_append, List.map_singleton, List.nodup_append] at h
    obtain ⟨hxs, -, hx⟩ := h
    have hnew : g.key x ∉ xs.map g.key := fun hmem => hx _ hmem _ (by simp) rfl
    rw [List.flatMap_append, List.flatMap_singleton, pieces,
      g.grouped_append_pieces (ih hxs fun y hy => hv y (by simp [hy])) hnew (hv x (by simp)),
      g.make_key_values]

end Grouping

end ResourceApi
