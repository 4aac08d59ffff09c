import ResourceApi.Proofs.Result
import ResourceApi.Sql.Render

/-!
# Runs of renderings

Rendering draws aliases from a counter and may fail. What is shown of a rendering is told in three
ways: it *gives* a result with some property, wherever the counter stands; it *yields* nothing but
results with some property, if any; and it *grows*, that is, it never puts the counter back. Each of
them follows the composition of renderings.
-/

namespace ResourceApi

/-- Every column has the stored name of its field. -/
theorem Registry.column_of_mem {r : Registry} {schema : Schema} {c : Column}
    (h : c ∈ r.columns schema) : c.column = columnName c.field := by
  unfold columns at h
  rcases List.mem_append.1 h with h | h
  · rcases List.mem_cons.1 h with rfl | h
    · rfl
    · obtain ⟨a, -, rfl⟩ := List.mem_map.1 h
      rfl
  · obtain ⟨k, -, rfl⟩ := List.mem_map.1 h
    rfl

namespace Rendering

variable {α β : Type}

/-! ## Runs of a rendering -/

theorem run_bind_eq_ok {x : Rendering α} {f : α → Rendering β} {n m : Nat} {b : β} :
    (x >>= f).run n = .ok (b, m) ↔ ∃ a k, x.run n = .ok (a, k) ∧ (f a).run k = .ok (b, m) := by
  rw [StateT.run_bind, bind_eq_ok]
  exact Prod.exists

theorem run_pure_eq_ok {a b : α} {n m : Nat} :
    (pure a : Rendering α).run n = .ok (b, m) ↔ a = b ∧ n = m := by
  rw [StateT.run_pure, pure_eq_ok, Prod.mk.injEq]

theorem run_lift_eq_ok {x : Except RenderError α} {b : α} {n m : Nat} :
    (liftM x : Rendering α).run n = .ok (b, m) ↔ x = .ok b ∧ n = m := by
  show (x >>= fun a => pure (a, n)) = _ ↔ _
  rw [bind_eq_ok]
  constructor
  · rintro ⟨a, hx, ha⟩
    cases pure_eq_ok.1 ha
    exact ⟨hx, rfl⟩
  · rintro ⟨hx, rfl⟩
    exact ⟨b, hx, rfl⟩

theorem run_aliasId_eq_ok {n m i : Nat} : aliasId.run n = .ok (i, m) ↔ i = n ∧ m = n + 1 := by
  show Except.ok (n, n + 1) = .ok (i, m) ↔ _
  rw [Except.ok.injEq, Prod.mk.injEq]
  exact ⟨fun ⟨h, h'⟩ => ⟨h.symm, h'.symm⟩, fun ⟨h, h'⟩ => ⟨h.symm, h'.symm⟩⟩

/-! ## Renderings that succeed -/

/-- The rendering succeeds from any alias on, with a result that has the property. -/
def Gives (x : Rendering α) (P : α → Prop) : Prop := ∀ n, ∃ a m, x.run n = .ok (a, m) ∧ P a

theorem gives_pure {P : α → Prop} {a : α} (h : P a) : Gives (pure a) P :=
  fun n => ⟨a, n, rfl, h⟩

theorem gives_lift {x : Except RenderError α} {a : α} (hx : x = .ok a) :
    Gives (liftM x) (· = a) := by
  intro n
  subst hx
  exact ⟨a, n, rfl, rfl⟩

theorem Gives.mono {x : Rendering α} {P Q : α → Prop} (hx : Gives x P)
    (h : ∀ a, P a → Q a) : Gives x Q := by
  intro n
  obtain ⟨a, m, ha, hP⟩ := hx n
  exact ⟨a, m, ha, h a hP⟩

theorem gives_aliasId : Gives aliasId fun _ => True :=
  fun n => ⟨n, n + 1, rfl, trivial⟩

theorem Gives.bind {x : Rendering α} {f : α → Rendering β} {P : α → Prop} {Q : β → Prop}
    (hx : Gives x P) (hf : ∀ a, P a → Gives (f a) Q) : Gives (x >>= f) Q := by
  intro n
  obtain ⟨a, m, ha, hP⟩ := hx n
  obtain ⟨b, k, hb, hP'⟩ := hf a hP m
  refine ⟨b, k, ?_, hP'⟩
  rw [StateT.run_bind, ha]
  exact hb

theorem gives_mapM {f : α → Rendering β} {P : α → β → Prop} {xs : List α}
    (h : ∀ x ∈ xs, Gives (f x) (P x)) : Gives (xs.mapM f) (List.Forall₂ P xs) := by
  induction xs with
  | nil => exact gives_pure .nil
  | cons x xs ih =>
    rw [List.mapM_cons]
    refine (h x (by simp)).bind fun y hy => ?_
    refine (ih fun x' hx' => h x' (by simp [hx'])).bind fun ys hys => ?_
    exact gives_pure (.cons hy hys)

theorem start_of_run {x : Rendering α} {a : α} {m : Nat} (h : x.run 0 = .ok (a, m)) :
    start x = .ok a := by
  show Prod.fst <$> x.run 0 = _
  rw [h]
  rfl

theorem run_of_start {x : Rendering α} {a : α} (h : start x = .ok a) :
    ∃ m, x.run 0 = .ok (a, m) := by
  have h : Prod.fst <$> x.run 0 = .ok a := h
  cases hr : x.run 0 with
  | error e =>
    rw [hr] at h
    cases h
  | ok out =>
    rw [hr] at h
    cases h
    exact ⟨out.2, rfl⟩

theorem start_eq_ok {x : Rendering α} {P : α → Prop} (h : Gives x P) :
    ∃ a, start x = .ok a ∧ P a := by
  obtain ⟨a, m, ha, hP⟩ := h 0
  exact ⟨a, start_of_run ha, hP⟩

theorem start_pair {x : Rendering (α × β)} {b : β} (h : Gives x (·.2 = b)) :
    ∃ a, start x = .ok (a, b) := by
  obtain ⟨⟨a, _⟩, hx, rfl⟩ := start_eq_ok h
  exact ⟨a, hx⟩

/-! ## Results of renderings -/

/-- Whatever the rendering succeeds with has the property. -/
def Yields (x : Rendering α) (P : α → Prop) : Prop := ∀ ⦃n a m⦄, x.run n = .ok (a, m) → P a

theorem yields_pure {P : α → Prop} {a : α} (h : P a) : Yields (pure a) P := by
  intro n b m hb
  obtain ⟨rfl, -⟩ := run_pure_eq_ok.1 hb
  exact h

theorem yields_lift {x : Except RenderError α} {P : α → Prop} (h : ∀ a, x = .ok a → P a) :
    Yields (liftM x) P :=
  fun _ a _ ha => h a (run_lift_eq_ok.1 ha).1

theorem yields_trivial (x : Rendering α) : Yields x fun _ => True := fun _ _ _ _ => trivial

theorem Yields.bind {x : Rendering α} {f : α → Rendering β} {P : α → Prop} {Q : β → Prop}
    (hx : Yields x P) (hf : ∀ a, P a → Yields (f a) Q) : Yields (x >>= f) Q := by
  intro n b m h
  obtain ⟨a, k, ha, hb⟩ := run_bind_eq_ok.1 h
  exact hf a (hx ha) hb

theorem yields_mapM {f : α → Rendering β} {P : β → Prop} {xs : List α}
    (h : ∀ x ∈ xs, Yields (f x) P) : Yields (xs.mapM f) fun ys => ∀ y ∈ ys, P y := by
  induction xs with
  | nil => exact yields_pure (by simp)
  | cons x xs ih =>
    rw [List.mapM_cons]
    refine (h x (by simp)).bind fun y hy => ?_
    refine (ih fun x' hx' => h x' (by simp [hx'])).bind fun ys hys => ?_
    exact yields_pure (List.forall_mem_cons.2 ⟨hy, hys⟩)

theorem Yields.start {x : Rendering α} {P : α → Prop} (hx : Yields x P) {a : α}
    (h : Rendering.start x = .ok a) : P a := by
  obtain ⟨m, hr⟩ := run_of_start h
  exact hx hr

/-! ## The counter -/

/-- The rendering never puts the counter of aliases back. -/
def Grows (x : Rendering α) : Prop := ∀ ⦃n a m⦄, x.run n = .ok (a, m) → n ≤ m

theorem grows_pure (a : α) : Grows (pure a) :=
  fun _ _ _ h => Nat.le_of_eq (run_pure_eq_ok.1 h).2

theorem grows_lift (x : Except RenderError α) : Grows (liftM x) :=
  fun _ _ _ h => Nat.le_of_eq (run_lift_eq_ok.1 h).2

theorem grows_aliasId : Grows aliasId := by
  intro n i m h
  have := (run_aliasId_eq_ok.1 h).2
  omega

theorem Grows.bind {x : Rendering α} {f : α → Rendering β} (hx : Grows x)
    (hf : ∀ a, Grows (f a)) : Grows (x >>= f) := by
  intro n b m h
  obtain ⟨a, k, ha, hb⟩ := run_bind_eq_ok.1 h
  have h₁ := hx ha
  have h₂ := hf a hb
  omega

theorem grows_mapM {f : α → Rendering β} (hf : ∀ a, Grows (f a)) (xs : List α) :
    Grows (xs.mapM f) := by
  induction xs with
  | nil => exact grows_pure _
  | cons x xs ih =>
    rw [List.mapM_cons]
    exact (hf x).bind fun _ => ih.bind fun _ => grows_pure _

/-- What is rendered for each of several parts, from an alias on that is past the first one. -/
theorem mapM_run_eq_ok {f : α → Rendering β} (hf : ∀ a, Grows (f a)) {xs : List α} {ys : List β}
    {n m : Nat} (h : (xs.mapM f).run n = .ok (ys, m)) :
    List.Forall₂ (fun x y => ∃ k l, n ≤ k ∧ (f x).run k = .ok (y, l)) xs ys := by
  induction xs generalizing n m ys with
  | nil =>
    obtain ⟨rfl, -⟩ := run_pure_eq_ok.1 h
    exact .nil
  | cons x xs ih =>
    rw [List.mapM_cons] at h
    obtain ⟨y, k, hy, h⟩ := run_bind_eq_ok.1 h
    obtain ⟨zs, l, hzs, h⟩ := run_bind_eq_ok.1 h
    obtain ⟨rfl, -⟩ := run_pure_eq_ok.1 h
    refine .cons ⟨n, k, Nat.le_refl n, hy⟩ ((ih hzs).imp ?_)
    rintro x' y' ⟨k', l', hle, h'⟩
    exact ⟨k', l', Nat.le_trans (hf x hy) hle, h'⟩

/-! ## Names -/

variable {r : Registry} {schema : Schema}

theorem association_eq_ok {name : String} {a : Association} :
    association r schema name = .ok a ↔ r.association? schema name = some a := by
  unfold association
  cases r.association? schema name <;> simp

/-- A column that is looked up is the one of the field. -/
theorem of_column_eq_ok {field : String} {c : Column} (h : column r schema field = .ok c) :
    r.column? schema field = some c ∧ c.field = field := by
  unfold column at h
  split at h
  · rename_i c' hc
    cases h
    exact ⟨hc, by simpa using List.find?_some hc⟩
  · cases h

/-- The column of a field has its stored name. -/
theorem column_eq_ok {field : String} {c : Column} (h : column r schema field = .ok c) :
    c.column = columnName field := by
  obtain ⟨hc, hfield⟩ := of_column_eq_ok h
  rw [← hfield]
  exact Registry.column_of_mem (List.mem_of_find?_eq_some hc)

end Rendering

/-- The values of a row go into the columns of their fields. -/
theorem Statement.assignments_eq_ok {r : Registry} {schema : Schema} {row : Object}
    {values : List (String × SqlValue)} (h : assignments r schema row = .ok values) :
    values = row.map fun m => (columnName m.1, SqlValue.ofJson m.2) := by
  rw [← List.map_id values]
  refine map_eq_map_of_forall₂ ((mapM_eq_ok.1 h).imp ?_)
  rintro ⟨field, value⟩ assigned hassigned
  obtain ⟨c, hc, hassigned⟩ := bind_eq_ok.1 hassigned
  obtain rfl := pure_eq_ok.1 hassigned
  rw [id, Rendering.column_eq_ok hc]

end ResourceApi
