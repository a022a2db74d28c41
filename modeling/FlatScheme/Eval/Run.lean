import FlatScheme.Store

/-!
Computations over a store.

A computation ends with a value, with an error of the language, or because the fuel given to it ran
out; the last is an outcome of its own, so that it can never pass for an answer. In each case the store
comes back as the computation left it: the effects of what was done before an error stay.
-/

namespace FlatScheme

/-- How a computation ends. -/
inductive Outcome (α : Type) where
  | ok (a : α)
  | error (e : EvalError)
  | outOfFuel

/-- A computation that may change the store. -/
def Run (α : Type) := Store → Outcome α × Store

namespace Run

/-- Yield a result and leave the store alone. -/
@[inline] def pure {α : Type} (a : α) : Run α := fun s => (.ok a, s)

/-- Go on with the result; an error or a lack of fuel ends the whole. -/
@[inline] def bind {α β : Type} (m : Run α) (f : α → Run β) : Run β := fun s =>
  match m s with
  | (.ok a, s') => f a s'
  | (.error e, s') => (.error e, s')
  | (.outOfFuel, s') => (.outOfFuel, s')

instance : Monad Run where
  pure := Run.pure
  bind := Run.bind

/-- End with an error. -/
@[inline] def fail {α : Type} (e : EvalError) : Run α := fun s => (.error e, s)

/-- End for lack of fuel. -/
@[inline] def starve {α : Type} : Run α := fun s => (.outOfFuel, s)

/-- Use a store operation that makes something. -/
@[inline] def make {α : Type} (f : Store → α × Store) : Run α := fun s =>
  match f s with
  | (a, s') => (.ok a, s')

/-- The value of a variable. -/
@[inline] def lookup (env : EnvId) (x : String) : Run Value := fun s =>
  match s.lookup env x with
  | .ok v => (.ok v, s)
  | .error e => (.error e, s)

/-- Bind a variable. -/
@[inline] def assign (env : EnvId) (x : String) (v : Value) : Run Unit := fun s =>
  (.ok (), s.bind env x v)

end Run

end FlatScheme
