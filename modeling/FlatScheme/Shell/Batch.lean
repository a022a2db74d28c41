import FlatScheme.Eval
import FlatScheme.Reader

/-!
Running a whole source: every expression is evaluated as soon as it has been read, and the first
fault or error ends the run.
-/

namespace FlatScheme.Shell

/-- How a run over a source ends. -/
inductive BatchResult where
  | done
  | fault (f : Fault)
  | error (e : EvalError)
  | outOfFuel

/-- The message of a run that failed. -/
def BatchResult.message? : BatchResult → Option String
  | .fault f => some f.message
  | .error e => some e.message
  | .done => none
  | .outOfFuel => none

/-- Evaluate the expressions of a source one after the other. -/
def runBatch (ev : Evaluator) (fuel : Nat) (env : EnvId) (src : Source) (s : Store) :
    BatchResult × Store :=
  match _h : src.next with
  | (.error .finish, _) => (.done, s)
  | (.error (.fault f), _) => (.fault f, s)
  | (.ok e, rest) =>
    match ev.eval fuel e env s with
    | (.ok _, s') => runBatch ev fuel env rest s'
    | (.error err, s') => (.error err, s')
    | (.outOfFuel, s') => (.outOfFuel, s')
termination_by src.unread.length
decreasing_by exact Source.next_length ‹_›

end FlatScheme.Shell
