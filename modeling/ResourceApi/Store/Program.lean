import ResourceApi.Store.Call

/-!
# Programs over a store

A `Program` is an interaction: it draws fresh identifiers, calls a store, goes on depending on
the replies, and ends with a result. It says nothing about the store, so that one program runs
on a database as well as against a script of replies. `interpret` runs it in any monad that can
draw identifiers and answer calls.
-/

namespace ResourceApi

/-- An interaction with a store. -/
inductive Program (α : Type) where
  | done (result : α)
  /-- Draws a fresh identifier. -/
  | draw (next : String → Program α)
  | call (c : Call) (next : c.Reply → Program α)

namespace Program

variable {α β γ : Type}

/-- Goes on with another program when one is done. -/
def bind : Program α → (α → Program β) → Program β
  | done a, f => f a
  | draw next, f => draw fun id => (next id).bind f
  | call c next, f => call c fun reply => (next reply).bind f

instance : Monad Program where
  pure := done
  bind := bind

@[simp] theorem pure_eq (a : α) : (pure a : Program α) = done a := rfl

@[simp] theorem done_bind (a : α) (f : α → Program β) : done a >>= f = f a := rfl

@[simp] theorem draw_bind (next : String → Program α) (f : α → Program β) :
    draw next >>= f = draw fun id => next id >>= f := rfl

@[simp] theorem call_bind (c : Call) (next : c.Reply → Program α) (f : α → Program β) :
    call c next >>= f = call c fun reply => next reply >>= f := rfl

theorem bind_done (p : Program α) : p >>= done = p := by
  induction p with
  | done a => rfl
  | draw next ih => simp [ih]
  | call c next ih => simp [ih]

theorem bind_assoc (p : Program α) (f : α → Program β) (g : β → Program γ) :
    p >>= f >>= g = p >>= fun a => f a >>= g := by
  induction p with
  | done a => rfl
  | draw next ih => simp [ih]
  | call c next ih => simp [ih]

instance : LawfulMonad Program :=
  LawfulMonad.mk' Program bind_done (fun _ _ => rfl) bind_assoc

/-- One identifier. -/
def drawn : Program String := draw done

/-- One call. -/
def ask (c : Call) : Program c.Reply := call c done

/-- Runs a program, given how to draw identifiers and how to answer calls. -/
def interpret {m : Type → Type} [Monad m] (fresh : m String) (answer : (c : Call) → m c.Reply) :
    Program α → m α
  | done a => pure a
  | draw next => do interpret fresh answer (next (← fresh))
  | call c next => do interpret fresh answer (next (← answer c))

theorem interpret_bind {m : Type → Type} [Monad m] [LawfulMonad m] (fresh : m String)
    (answer : (c : Call) → m c.Reply) (p : Program α) (f : α → Program β) :
    interpret fresh answer (p >>= f) =
      interpret fresh answer p >>= fun a => interpret fresh answer (f a) := by
  induction p with
  | done a => simp [interpret]
  | draw next ih => simp [interpret, ih]
  | call c next ih => simp [interpret, ih]

end Program

end ResourceApi
