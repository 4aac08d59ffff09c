import Mathlib.Data.List.Forall2
import ResourceApi.Json.Basic
import ResourceApi.Text.Split
import ResourceApi.Write.Structure

/-!
# JSON pointers

A pointer is a text that leads into a JSON value. It has a name behind each of its slashes, in which
`~0` stands for a tilde and `~1` for a slash, and `Pointer.read?` finds the names. `Json.Leads` is
where a list of names leads to, member by member and element by element.

**Theorem (`Pointer.read?_pointerText`).** The text of a path is read as that path exactly if no
name on it has a tilde or a slash: the names are written as they are.
-/

namespace ResourceApi

/-- What a list of names leads to in a value. An element is named by its index. -/
inductive Json.Leads : Json → List String → Json → Prop
  | here {value : Json} : Leads value [] value
  | member {members : Object} {name : String} {value target : Json} {path : List String} :
      (name, value) ∈ members → Leads value path target → Leads (.obj members) (name :: path) target
  | element {items : List Json} {i : Nat} {item target : Json} {path : List String} :
      items[i]? = some item → Leads item path target →
        Leads (.arr items) (toString i :: path) target

namespace Json.Leads

variable {value target : Json} {path rest : List String}

/-- Descending along two paths, one after the other. -/
theorem append {mid : Json} (h : Leads value path mid) (h' : Leads mid rest target) :
    Leads value (path ++ rest) target := by
  induction h with
  | here => exact h'
  | member hm _ ih => exact .member hm (ih h')
  | element hi _ ih => exact .element hi (ih h')

theorem append_member {members : Object} {name : String} (h : Leads value path (.obj members))
    (hm : (name, target) ∈ members) : Leads value (path ++ [name]) target :=
  h.append (.member hm .here)

theorem append_element {items : List Json} {i : Nat} (h : Leads value path (.arr items))
    (hi : items[i]? = some target) : Leads value (path ++ [toString i]) target :=
  h.append (.element hi .here)

end Json.Leads

theorem Json.leads_obj_iff {members : Object} {name : String} {path : List String} {target : Json} :
    Leads (.obj members) (name :: path) target ↔
      ∃ value, (name, value) ∈ members ∧ Leads value path target := by
  constructor
  · rintro (_ | ⟨hm, hrest⟩)
    exact ⟨_, hm, hrest⟩
  · rintro ⟨value, hm, hrest⟩
    exact .member hm hrest

namespace Pointer

/-- The name that a pointer writes in this way. -/
def unescape : List Char → Option (List Char)
  | [] => some []
  | c :: rest =>
    if c = '~' then
      match rest with
      | '0' :: rest => (unescape rest).map ('~' :: ·)
      | '1' :: rest => (unescape rest).map ('/' :: ·)
      | _ => none
    else (unescape rest).map (c :: ·)

/-- The names of a pointer. -/
def read? (pointer : String) : Option (List String) :=
  match Text.splitOn '/' pointer.toList with
  | [] :: pieces => pieces.mapM fun piece => (unescape piece).map String.ofList
  | _ => none

/-- The name is written in a pointer as it is. -/
def IsPlain (name : String) : Prop := '~' ∉ name.toList ∧ '/' ∉ name.toList

instance (name : String) : Decidable (IsPlain name) :=
  inferInstanceAs (Decidable (_ ∧ _))

theorem unescape_self {cs : List Char} (h : '~' ∉ cs) : unescape cs = some cs := by
  induction cs with
  | nil => rfl
  | cons c rest ih =>
    rw [List.mem_cons, not_or] at h
    unfold unescape
    rw [if_neg (Ne.symm h.1), ih h.2]
    rfl

/-- Every tilde makes a name shorter than it is written. -/
theorem length_of_unescape {cs ds : List Char} (h : unescape cs = some ds) :
    ds.length + cs.count '~' = cs.length := by
  fun_induction unescape cs generalizing ds with
  | case1 =>
    obtain rfl := Option.some.inj h
    rfl
  | case2 rest ih | case3 rest ih =>
    obtain ⟨tail, htail, rfl⟩ := Option.map_eq_some_iff.1 h
    have := ih htail
    simp
    omega
  | case4 => cases h
  | case5 c rest hc ih =>
    obtain ⟨tail, htail, rfl⟩ := Option.map_eq_some_iff.1 h
    have := ih htail
    rw [List.length_cons, List.length_cons, List.count_cons_of_ne hc]
    omega

/-! ## The text of a path -/

theorem toList_pointerText (path : List String) :
    (pointerText path).toList = (path.map String.toList).flatMap ('/' :: ·) := by
  rw [pointerText, String.toList_join, List.flatMap_map, List.flatMap_map]
  congr 1
  funext name
  rw [String.toList_append]
  rfl

theorem splitOn_flatMap (first : List Char) (names : List (List Char)) :
    Text.splitOn '/' (first ++ names.flatMap ('/' :: ·)) =
      Text.splitOn '/' first ++ names.flatMap (Text.splitOn '/') := by
  induction names generalizing first with
  | nil => simp
  | cons name names ih =>
    rw [List.flatMap_cons, List.flatMap_cons, List.cons_append, Text.splitOn_append, ih]

theorem length_splitOn_pos (cs : List Char) : 0 < (Text.splitOn '/' cs).length :=
  List.length_pos_iff.2 (Text.splitOn_ne_nil '/' cs)

theorem notMem_of_length_splitOn {cs : List Char} (h : (Text.splitOn '/' cs).length ≤ 1) :
    '/' ∉ cs := by
  obtain ⟨piece, hpiece⟩ := List.length_eq_one_iff.1 (Nat.le_antisymm h (length_splitOn_pos cs))
  have hcs : piece = cs := by
    have hjoin := Text.intercalate_splitOn '/' cs
    rwa [hpiece, List.intercalate_singleton] at hjoin
  subst hcs
  exact Text.notMem_of_mem_splitOn (hpiece ▸ List.mem_singleton_self piece)

/-- Every name is at least one piece, and exactly one if it has no slash. -/
theorem notMem_of_length_flatMap {names : List (List Char)}
    (h : (names.flatMap (Text.splitOn '/')).length ≤ names.length) :
    ∀ name ∈ names, '/' ∉ name := by
  have hle (names : List (List Char)) :
      names.length ≤ (names.flatMap (Text.splitOn '/')).length := by
    induction names with
    | nil => exact Nat.le_refl 0
    | cons name names ih =>
      have := length_splitOn_pos name
      rw [List.flatMap_cons, List.length_append, List.length_cons]
      omega
  induction names with
  | nil => nofun
  | cons name names ih =>
    rw [List.flatMap_cons, List.length_append, List.length_cons] at h
    have := hle names
    have := length_splitOn_pos name
    exact List.forall_mem_cons.2 ⟨notMem_of_length_splitOn (by omega), ih (by omega)⟩

theorem flatMap_splitOn {names : List (List Char)} (h : ∀ name ∈ names, '/' ∉ name) :
    names.flatMap (Text.splitOn '/') = names := by
  induction names with
  | nil => rfl
  | cons name names ih =>
    obtain ⟨hname, hnames⟩ := List.forall_mem_cons.1 h
    rw [List.flatMap_cons, Text.splitOn_of_notMem hname, ih hnames]
    rfl

theorem mapM_eq_some {α β : Type} {f : α → Option β} {xs : List α} {ys : List β} :
    xs.mapM f = some ys ↔ List.Forall₂ (fun x y => f x = some y) xs ys := by
  induction xs generalizing ys with
  | nil =>
    rw [List.mapM_nil, List.forall₂_nil_left_iff]
    exact Option.some_inj.trans eq_comm
  | cons x xs ih =>
    rw [List.mapM_cons, List.forall₂_cons_left_iff]
    simp only [Option.bind_eq_bind, Option.bind_eq_some_iff, Option.pure_def, Option.some_inj, ih]
    constructor
    · rintro ⟨y, hy, zs, hz, rfl⟩
      exact ⟨y, zs, hy, hz, rfl⟩
    · rintro ⟨y, zs, hy, hz, rfl⟩
      exact ⟨y, hy, zs, hz, rfl⟩

/-- **The text of a path reads as the path exactly if every name on it is plain.** -/
theorem read?_pointerText (path : List String) :
    read? (pointerText path) = some path ↔ ∀ name ∈ path, IsPlain name := by
  have hread : read? (pointerText path) =
      ((path.map String.toList).flatMap (Text.splitOn '/')).mapM
        fun piece => (unescape piece).map String.ofList := by
    rw [read?, toList_pointerText, ← List.nil_append (List.flatMap ..), splitOn_flatMap]
    rfl
  rw [hread, mapM_eq_some]
  constructor
  · intro h
    have hslash : ∀ cs ∈ path.map String.toList, '/' ∉ cs := by
      refine notMem_of_length_flatMap (Nat.le_of_eq ?_)
      rw [List.length_map, h.length_eq]
    rw [flatMap_splitOn hslash, List.forall₂_map_left_iff, List.forall₂_same] at h
    intro name hname
    obtain ⟨cs, hcs, hsame⟩ := Option.map_eq_some_iff.1 (h name hname)
    obtain rfl : cs = name.toList := by rw [← hsame, String.toList_ofList]
    have := length_of_unescape hcs
    exact ⟨List.count_eq_zero.1 (by omega), hslash _ (List.mem_map_of_mem hname)⟩
  · intro h
    rw [flatMap_splitOn (List.forall_mem_map.2 fun name hname => (h name hname).2),
      List.forall₂_map_left_iff, List.forall₂_same]
    intro name hname
    rw [unescape_self (h name hname).1, Option.map_some, String.ofList_toList]

/-- A name with a slash is read as two. -/
example : read? (pointerText ["data", "a/b"]) = some ["data", "a", "b"] := by decide +kernel

end Pointer

end ResourceApi
