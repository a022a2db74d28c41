import FlatScheme.Eval.Step

/-!
The two evaluators.

Both repeat `step` and bound how deep evaluations may nest. The *nested* evaluator treats a tail like
any other part: each tail costs one level of depth, so every evaluation ends, at the latest in a depth
error. The *trampoline* goes on with a tail on the spot, so loops that recur in tail position need no
depth and may run for ever; it therefore takes fuel, which bounds the number of steps of each such loop
and shows in the result only when it runs out.

Depth is counted down: an evaluator with `n` levels left hands `n - 1` to its parts.
-/

namespace FlatScheme

namespace Eval

/-- Evaluate with `remaining` levels of depth left out of `limit`, each tail taking one. -/
def nested (limit : Nat) : (remaining : Nat) → Expr → EnvId → Run Value
  | 0, _, _ => .fail (.depth limit)
  | remaining + 1, e, env => do
    match ← step (nested limit remaining) e env with
    | .value v => return v
    | .tail e' env' => nested limit remaining e' env'

/-- Follow tails on the spot, at most `fuel` of them. -/
def bounce (sub : Expr → EnvId → Run Value) : (fuel : Nat) → Expr → EnvId → Run Value
  | 0, _, _ => .starve
  | fuel + 1, e, env => do
    match ← step sub e env with
    | .value v => return v
    | .tail e' env' => bounce sub fuel e' env'

/-- Evaluate with `remaining` levels of depth left out of `limit`, tails being free. -/
def trampoline (fuel limit : Nat) : (remaining : Nat) → Expr → EnvId → Run Value
  | 0, _, _ => .fail (.depth limit)
  | remaining + 1, e, env => bounce (trampoline fuel limit remaining) fuel e env

end Eval

/-- Which evaluator to use, and how deep it may nest. -/
structure Evaluator where
  recursive : Bool
  maxDepth : Int
  deriving DecidableEq, Repr

namespace Evaluator

/-- The depth limit where none is asked for. -/
def defaultMaxDepth : Nat := 10000

/-- A trampoline with the default limit. -/
def standard : Evaluator := ⟨false, 0⟩

/-- The depth limit in effect: what is not positive asks for the default. -/
def limit (ev : Evaluator) : Nat := if ev.maxDepth ≤ 0 then defaultMaxDepth else ev.maxDepth.toNat

/-- Evaluate an expression in an environment. -/
def eval (ev : Evaluator) (fuel : Nat) (e : Expr) (env : EnvId) : Run Value :=
  if ev.recursive then Eval.nested ev.limit ev.limit e env
  else Eval.trampoline fuel ev.limit ev.limit e env

end Evaluator

end FlatScheme
