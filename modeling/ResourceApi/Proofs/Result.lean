import Mathlib.Data.List.Forall2
import ResourceApi.Rejection

/-!
# Results of checks

When a composition of checks succeeds, each of the checks has succeeded. The lemmas here take a
successful result apart, one for each way in which checks are composed.
-/

namespace ResourceApi

variable {ε ε' α β : Type}

instance decidableEqExcept [DecidableEq ε] [DecidableEq α] : DecidableEq (Except ε α)
  | .ok a, .ok b => decidable_of_iff (a = b) ⟨congrArg Except.ok, Except.ok.inj⟩
  | .error d, .error e => decidable_of_iff (d = e) ⟨congrArg Except.error, Except.error.inj⟩
  | .ok _, .error _ | .error _, .ok _ => .isFalse nofun

instance decidableForallOk {x : Except ε α} {P : α → Prop} [DecidablePred P] :
    Decidable (∀ a, x = .ok a → P a) :=
  match x with
  | .ok a => decidable_of_iff (P a) ⟨fun h _ hb => Except.ok.inj hb ▸ h, fun h => h a rfl⟩
  | .error _ => .isTrue nofun

@[simp] theorem pure_eq_ok {a b : α} : (pure a : Except ε α) = .ok b ↔ a = b := by
  simp [pure, Except.pure]

theorem bind_eq_ok {x : Except ε α} {f : α → Except ε β} {b : β} :
    x >>= f = .ok b ↔ ∃ a, x = .ok a ∧ f a = .ok b := by
  cases x with
  | error e => simp [bind, Except.bind]
  | ok a => simp [bind, Except.bind]

@[simp] theorem pure_ne_error {a : α} {e : ε} : (pure a : Except ε α) ≠ .error e := nofun

/-- A composition of checks fails if the first one does, or if the second one does behind it. -/
theorem bind_eq_error {x : Except ε α} {f : α → Except ε β} {e : ε} :
    x >>= f = .error e ↔ x = .error e ∨ ∃ a, x = .ok a ∧ f a = .error e := by
  cases x <;> simp [bind, Except.bind]

theorem mapError_eq_error {f : ε → ε'} {x : Except ε α} {e : ε'} :
    x.mapError f = .error e ↔ ∃ e', x = .error e' ∧ f e' = e := by
  cases x <;> simp [Except.mapError]

/-- A composition of checks succeeds if each of them does. -/
theorem exists_bind_eq_ok {x : Except ε α} {f : α → Except ε β} (hx : ∃ a, x = .ok a)
    (hf : ∀ a, ∃ b, f a = .ok b) : ∃ b, x >>= f = .ok b := by
  obtain ⟨a, ha⟩ := hx
  obtain ⟨b, hb⟩ := hf a
  exact ⟨b, bind_eq_ok.2 ⟨a, ha, hb⟩⟩

/-- A success is not affected by how failures are reported. -/
theorem mapError_eq_ok {f : ε → ε'} {x : Except ε α} {a : α} :
    x.mapError f = .ok a ↔ x = .ok a := by
  cases x with
  | error e => exact ⟨nofun, nofun⟩
  | ok b => simp [Except.mapError]

theorem map_eq_ok {f : α → β} {x : Except ε α} {b : β} :
    x.map f = .ok b ↔ ∃ a, x = .ok a ∧ f a = b := by
  cases x with
  | error e => simp [Except.map]
  | ok a => simp [Except.map]

theorem mapM_eq_ok {f : α → Except ε β} {xs : List α} {ys : List β} :
    xs.mapM f = .ok ys ↔ List.Forall₂ (fun x y => f x = .ok y) xs ys := by
  induction xs generalizing ys with
  | nil =>
    rw [List.mapM_nil, pure_eq_ok, List.forall₂_nil_left_iff]
    exact eq_comm
  | cons x xs ih =>
    rw [List.mapM_cons, bind_eq_ok, List.forall₂_cons_left_iff]
    simp only [bind_eq_ok, pure_eq_ok, ih]
    constructor
    · rintro ⟨y, hy, zs, hz, rfl⟩
      exact ⟨y, zs, hy, hz, rfl⟩
    · rintro ⟨y, zs, hy, hz, rfl⟩
      exact ⟨y, hy, zs, hz, rfl⟩

/-- Results that are made alike have the same list. -/
theorem map_eq_map_of_forall₂ {γ : Type} {f : β → γ} {g : α → γ} {xs : List α} {ys : List β}
    (h : List.Forall₂ (fun x y => f y = g x) xs ys) : ys.map f = xs.map g := by
  induction h with
  | nil => rfl
  | cons hxy _ ih => rw [List.map_cons, List.map_cons, hxy, ih]

/-- Every element of a list belongs to one of the elements that it is related to in order. -/
theorem exists_of_forall₂ {R : α → β → Prop} {xs : List α} {ys : List β}
    (h : List.Forall₂ R xs ys) {y : β} (hy : y ∈ ys) : ∃ x ∈ xs, R x y := by
  induction h with
  | nil => simp at hy
  | @cons x z xs ys hx _ ih =>
    rcases List.mem_cons.1 hy with rfl | hy
    · exact ⟨x, by simp, hx⟩
    · obtain ⟨x', hm, hx'⟩ := ih hy
      exact ⟨x', by simp [hm], hx'⟩

/-- What is made of the elements of two lists in order. -/
theorem forall₂_of_zip {γ : Type} {R : α → β → Prop} {Q : α × β → γ → Prop} {xs : List α}
    {ys : List β} {zs : List γ} (h : List.Forall₂ R xs ys)
    (hz : List.Forall₂ Q (xs.zip ys) zs) :
    List.Forall₂ (fun x z => ∃ y, R x y ∧ Q (x, y) z) xs zs := by
  induction h generalizing zs with
  | nil =>
    cases hz
    exact .nil
  | cons hxy _ ih =>
    obtain _ | ⟨hq, hz⟩ := hz
    exact .cons ⟨_, hxy, hq⟩ (ih hz)

/-- Every result of a list of checks is the result of one of them. -/
theorem exists_of_mapM_eq_ok {f : α → Except ε β} {xs : List α} {ys : List β}
    (h : xs.mapM f = .ok ys) {y : β} (hy : y ∈ ys) : ∃ x ∈ xs, f x = .ok y :=
  exists_of_forall₂ (mapM_eq_ok.1 h) hy

/-- A list of checks fails with the error of one of them. -/
theorem exists_of_mapM_eq_error {f : α → Except ε β} {xs : List α} {e : ε}
    (h : xs.mapM f = .error e) : ∃ x ∈ xs, f x = .error e := by
  induction xs with
  | nil => cases h
  | cons x xs ih =>
    rw [List.mapM_cons] at h
    rcases bind_eq_error.1 h with hx | ⟨y, -, h⟩
    · exact ⟨x, List.mem_cons_self, hx⟩
    · rcases bind_eq_error.1 h with hxs | ⟨ys, -, h⟩
      · obtain ⟨x', hx', he⟩ := ih hxs
        exact ⟨x', List.mem_cons_of_mem _ hx', he⟩
      · exact absurd h pure_ne_error

/-- A list of checks that all succeed has results. -/
theorem exists_mapM_eq_ok {f : α → Except ε β} {xs : List α} (h : ∀ x ∈ xs, ∃ y, f x = .ok y) :
    ∃ ys, xs.mapM f = .ok ys := by
  induction xs with
  | nil => exact ⟨[], rfl⟩
  | cons x xs ih =>
    obtain ⟨y, hy⟩ := h x (by simp)
    obtain ⟨ys, hys⟩ := ih fun x' hx' => h x' (by simp [hx'])
    refine ⟨y :: ys, ?_⟩
    rw [List.mapM_cons, hy, hys]
    rfl

/-- Steps that all succeed, wherever they start, lead somewhere. -/
theorem exists_foldlM_eq_ok {f : β → α → Except ε β} {xs : List α}
    (h : ∀ x ∈ xs, ∀ b, ∃ c, f b x = .ok c) (b : β) : ∃ c, xs.foldlM f b = .ok c := by
  induction xs generalizing b with
  | nil => exact ⟨b, rfl⟩
  | cons x xs ih =>
    obtain ⟨hx, hxs⟩ := List.forall_mem_cons.1 h
    rw [List.foldlM_cons]
    exact exists_bind_eq_ok (hx b) (ih hxs)

theorem forM_eq_ok {f : α → Except ε Unit} {xs : List α} :
    xs.forM f = .ok () ↔ ∀ x ∈ xs, f x = .ok () := by
  induction xs with
  | nil => simp [List.forM_nil]
  | cons x xs ih =>
    show (f x >>= fun _ => xs.forM f) = _ ↔ _
    rw [bind_eq_ok]
    constructor
    · rintro ⟨⟨⟩, hx, hxs⟩
      exact List.forall_mem_cons.2 ⟨hx, ih.1 hxs⟩
    · intro h
      exact ⟨(), h x (by simp), ih.2 fun y hy => h y (by simp [hy])⟩

/-! ## Checks that agree -/

/-- Two checks fail alike, or both succeed with results that are related. -/
inductive Agree (R : α → β → Prop) : Except ε α → Except ε β → Prop
  | ok {a : α} {b : β} : R a b → Agree R (.ok a) (.ok b)
  | error (e : ε) : Agree R (.error e) (.error e)

theorem Agree.refl {R : α → α → Prop} (h : ∀ a, R a a) (x : Except ε α) : Agree R x x := by
  cases x with
  | error e => exact .error e
  | ok a => exact .ok (h a)

theorem Agree.mono {R Q : α → β → Prop} {x : Except ε α} {y : Except ε β} (h : Agree R x y)
    (hR : ∀ a b, R a b → Q a b) : Agree Q x y := by
  cases h with
  | error e => exact .error e
  | ok h => exact .ok (hR _ _ h)

theorem Agree.bind {γ δ : Type} {R : α → β → Prop} {Q : γ → δ → Prop} {x : Except ε α}
    {y : Except ε β} {f : α → Except ε γ} {g : β → Except ε δ} (h : Agree R x y)
    (hf : ∀ a b, R a b → Agree Q (f a) (g b)) : Agree Q (x >>= f) (y >>= g) := by
  cases h with
  | error e => exact .error e
  | ok h => exact hf _ _ h

theorem Agree.map_eq {γ : Type} {R : α → β → Prop} {x : Except ε α} {y : Except ε β} {f : α → γ}
    {g : β → γ} (h : Agree R x y) (hf : ∀ a b, R a b → f a = g b) : x.map f = y.map g := by
  cases h with
  | error e => rfl
  | ok h => exact congrArg Except.ok (hf _ _ h)

/-- Lists of checks agree if their elements do. -/
theorem agree_mapM {γ δ : Type} {S : γ → δ → Prop} {R : α → β → Prop} {f : γ → Except ε α}
    {g : δ → Except ε β} (hf : ∀ x y, S x y → Agree R (f x) (g y)) {xs : List γ} {ys : List δ}
    (h : List.Forall₂ S xs ys) : Agree (List.Forall₂ R) (xs.mapM f) (ys.mapM g) := by
  induction h with
  | nil => exact .ok .nil
  | @cons x y xs ys hxy _ ih =>
    rw [List.mapM_cons, List.mapM_cons]
    refine (hf x y hxy).bind fun a b hab => ih.bind fun as bs hs => ?_
    exact .ok (.cons hab hs)

/-! ## Whether checks succeed -/

theorem exists_bind_eq_ok_iff {x : Except ε α} {f : α → Except ε β} :
    (∃ b, x >>= f = .ok b) ↔ ∃ a, x = .ok a ∧ ∃ b, f a = .ok b := by
  simp only [bind_eq_ok]
  constructor
  · rintro ⟨b, a, hx, hf⟩
    exact ⟨a, hx, b, hf⟩
  · rintro ⟨a, hx, b, hf⟩
    exact ⟨b, a, hx, hf⟩

theorem exists_mapM_eq_ok_iff {f : α → Except ε β} {xs : List α} :
    (∃ ys, xs.mapM f = .ok ys) ↔ ∀ x ∈ xs, ∃ y, f x = .ok y := by
  refine ⟨fun ⟨ys, h⟩ x hx => ?_, exists_mapM_eq_ok⟩
  obtain ⟨y, -, hy⟩ := exists_of_forall₂ (mapM_eq_ok.1 h).flip hx
  exact ⟨y, hy⟩

/-! ## Checks that are sorted out -/

theorem mem_of_mem_sortOut {xs : List (Except ε α)} {a : α} (h : a ∈ (sortOut xs).2) :
    .ok a ∈ xs := by
  induction xs with
  | nil => cases h
  | cons x rest ih =>
    cases x with
    | error e => exact List.mem_cons_of_mem _ (ih h)
    | ok b =>
      rcases List.mem_cons.1 h with rfl | h
      · exact List.mem_cons_self
      · exact List.mem_cons_of_mem _ (ih h)

theorem mem_sortOut_of_mem {xs : List (Except ε α)} {a : α} (h : .ok a ∈ xs) :
    a ∈ (sortOut xs).2 := by
  induction xs with
  | nil => cases h
  | cons x rest ih =>
    cases x with
    | error e => exact ih (by simpa using h)
    | ok b =>
      rcases List.mem_cons.1 h with h | h
      · exact Except.ok.inj h ▸ List.mem_cons_self
      · exact List.mem_cons_of_mem _ (ih h)

theorem mem_sortOut_iff {xs : List (Except ε α)} {a : α} : a ∈ (sortOut xs).2 ↔ .ok a ∈ xs :=
  ⟨mem_of_mem_sortOut, mem_sortOut_of_mem⟩

theorem error_mem_of_mem_sortOut {xs : List (Except ε α)} {e : ε} (h : e ∈ (sortOut xs).1) :
    .error e ∈ xs := by
  induction xs with
  | nil => cases h
  | cons x rest ih =>
    cases x with
    | ok a => exact List.mem_cons_of_mem _ (ih h)
    | error d =>
      rcases List.mem_cons.1 h with rfl | h
      · exact List.mem_cons_self
      · exact List.mem_cons_of_mem _ (ih h)

/-- What a check finds wrong. -/
def faultsOf : Except ε α → List ε
  | .error e => [e]
  | .ok _ => []

theorem mem_faultsOf {x : Except ε α} {e : ε} : e ∈ faultsOf x ↔ x = .error e := by
  cases x <;> simp [faultsOf, eq_comm]

theorem faultsOf_length_le (x : Except ε α) : (faultsOf x).length ≤ 1 := by
  cases x <;> simp [faultsOf]

/-- The faults are those of each check, in order. -/
theorem sortOut_fst (xs : List (Except ε α)) : (sortOut xs).1 = xs.flatMap faultsOf := by
  induction xs with
  | nil => rfl
  | cons x rest ih => cases x <;> simp [sortOut, faultsOf, ih]

/-- No fault is found if every check succeeds. -/
theorem sortOut_eq_nil_iff {xs : List (Except ε α)} :
    (sortOut xs).1 = [] ↔ ∀ x ∈ xs, ∃ a, x = .ok a := by
  induction xs with
  | nil => simp [sortOut]
  | cons x rest ih =>
    cases x with
    | error e => simp [sortOut]
    | ok a => simp [sortOut, ih]

/-- Checks that all succeed give what each of them gives. -/
theorem sortOut_map_eq {f : α → Except ε β} {g : α → β} {xs : List α}
    (h : (sortOut (xs.map f)).1 = []) (hg : ∀ x b, f x = .ok b → b = g x) :
    (sortOut (xs.map f)).2 = xs.map g := by
  induction xs with
  | nil => rfl
  | cons x rest ih =>
    rw [List.map_cons] at h ⊢
    cases hx : f x with
    | error e =>
      rw [hx] at h
      cases h
    | ok b =>
      rw [hx] at h
      rw [List.map_cons, ← hg x b hx, ← ih h]
      rfl

end ResourceApi
