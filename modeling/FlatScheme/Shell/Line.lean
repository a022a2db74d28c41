import FlatScheme.Eval
import FlatScheme.Reader

/-!
Evaluating a piece of text typed at the prompt.

The whole text is read before any of it is evaluated. If it ends too early nothing happens, and more
text is asked for. Otherwise each value is printed on a line of its own, up to the first error, which is
printed apart.
-/

namespace FlatScheme.Shell

/-- How the evaluation of a text ended. -/
inductive LineEnding where
  | finished
  | incomplete
  | outOfFuel
  deriving DecidableEq, Repr

/-- What the evaluation of a text printed, and how it ended. -/
structure LineReport where
  ending : LineEnding
  stdout : String
  stderr : String
  deriving DecidableEq

/-- The line that reports an error. -/
def errorLine (message : String) : String := "error: " ++ message ++ "\n"

/-- Evaluate expressions one after the other, printing behind `printed`. -/
def evalEach (ev : Evaluator) (fuel : Nat) (env : EnvId) (printed : String) :
    List Expr → Store → LineReport × Store
  | [], s => (⟨.finished, printed, ""⟩, s)
  | e :: rest, s =>
    match ev.eval fuel e env s with
    | (.ok v, s') => evalEach ev fuel env (printed ++ v.text ++ "\n") rest s'
    | (.error err, s') => (⟨.finished, printed, errorLine err.message⟩, s')
    | (.outOfFuel, s') => (⟨.outOfFuel, printed, ""⟩, s')

/-- Read a text and evaluate every expression of it. -/
def evalLine (ev : Evaluator) (fuel : Nat) (env : EnvId) (text : List Char) (s : Store) :
    LineReport × Store :=
  match (Source.mk text none).readAll with
  | .ok exprs => evalEach ev fuel env "" exprs s
  | .error f =>
    if f.isIncomplete then (⟨.incomplete, "", ""⟩, s)
    else (⟨.finished, "", errorLine f.message⟩, s)

end FlatScheme.Shell
