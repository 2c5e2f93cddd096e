import Mathlib.Control.Basic

/-!
# Programs that make requests

A `Program` is what a function does as its environment sees it: it returns a result, or makes a
request and goes on with the answer. One translation of a function serves every question about it:
`eval` runs it against an environment that answers at once, and a machine in which several tasks run
programs takes it a request at a time.
-/

namespace PartLib

/-- A program over the requests `ρ`, where a request `r` is answered by an element of `ans r`. -/
inductive Program {ρ : Type} (ans : ρ → Type) (α : Type)
  | pure (a : α)
  | request (r : ρ) (next : ans r → Program ans α)

namespace Program

variable {ρ : Type} {ans : ρ → Type} {α β γ : Type}

/-- The program `p`, and then `f` on its result. -/
def bind : Program ans α → (α → Program ans β) → Program ans β
  | .pure a, f => f a
  | .request r next, f => .request r fun x => (next x).bind f

instance : Monad (Program ans) where
  pure := .pure
  bind := .bind

@[simp]
theorem pure_bind (a : α) (f : α → Program ans β) : (Program.pure a >>= f) = f a := rfl

@[simp]
theorem request_bind (r : ρ) (next : ans r → Program ans α) (f : α → Program ans β) :
    (Program.request r next >>= f) = .request r fun x => next x >>= f := rfl

/-- Programs are put together from left to right, however they are grouped. -/
theorem bind_assoc (p : Program ans α) (f : α → Program ans β) (g : β → Program ans γ) :
    (p >>= f) >>= g = p >>= fun a => f a >>= g := by
  induction p with
  | pure a => rfl
  | request r next ih =>
    simp only [request_bind]
    exact congrArg _ (funext ih)

/-- A program with nothing after it. -/
theorem bind_pure (p : Program ans α) : p >>= .pure = p := by
  induction p with
  | pure a => rfl
  | request r next ih =>
    rw [request_bind]
    exact congrArg _ (funext ih)

instance : LawfulMonad (Program ans) :=
  .mk' (Program ans) bind_pure (fun _ _ => rfl) bind_assoc

/-- One request, and its answer. -/
abbrev ask (r : ρ) : Program ans (ans r) := .request r .pure

/-! ## Running against an environment that answers at once -/

/-- The result of a program and the state of the environment after it, when the environment answers
as `handle` says. -/
def eval {σ : Type} (handle : σ → (r : ρ) → ans r × σ) : Program ans α → σ → α × σ
  | .pure a, s => (a, s)
  | .request r next, s => (next (handle s r).1).eval handle (handle s r).2

/-- The environment answers the second program as the first has left it. -/
theorem eval_bind {σ : Type} (handle : σ → (r : ρ) → ans r × σ) (p : Program ans α)
    (f : α → Program ans β) (s : σ) :
    (p >>= f).eval handle s = (f (p.eval handle s).1).eval handle (p.eval handle s).2 := by
  induction p generalizing s with
  | pure a => rfl
  | request r next ih =>
    rw [request_bind, eval, ih]
    rfl

section

variable {ε σ : Type} {handle : σ → (r : ρ) → ans r × σ} {s s' : σ}
  {x : ExceptT ε (Program ans) α}

/-- What comes after a part of a function goes on from its end. -/
theorem eval_exceptBind_ok {a : α} (h : x.run.eval handle s = (.ok a, s'))
    (f : α → ExceptT ε (Program ans) β) : (x >>= f).run.eval handle s = (f a).run.eval handle s' := by
  rw [ExceptT.run_bind, eval_bind, h]

/-- After an error nothing comes. -/
theorem eval_exceptBind_error {e : ε} (h : x.run.eval handle s = (.error e, s'))
    (f : α → ExceptT ε (Program ans) β) : (x >>= f).run.eval handle s = (.error e, s') := by
  rw [ExceptT.run_bind, eval_bind, h]
  rfl

end

end Program

/-- A request with its answer. -/
abbrev Served {ρ : Type} (ans : ρ → Type) := (r : ρ) × ans r

end PartLib
