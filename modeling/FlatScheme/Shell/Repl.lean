import FlatScheme.Shell.History
import FlatScheme.Shell.Line
import FlatScheme.Text.Classes

/-!
The interactive loop: prompt, read a line, evaluate, print.

Lines pile up as *pending* text until they can be read to an end. A blank line is passed over when
nothing is pending. Text that has been evaluated, with whatever outcome, goes to the history.
-/

namespace FlatScheme.Shell

/-- What the loop keeps between lines. -/
structure Repl where
  pending : List Char
  history : History

namespace Repl

/-- Nothing typed yet. -/
def start (history : History) : Repl := ⟨[], history⟩

/-- The prompt tells a new text from one to be continued. -/
def prompt (r : Repl) : String :=
  if r.pending.isEmpty then "little scheme > " else "              . "

/-- What the loop says when the input ends. -/
def farewell : String := "Bye bye.\n"

/-- Take one line. -/
def feed (r : Repl) (ev : Evaluator) (fuel : Nat) (env : EnvId) (line : List Char) (s : Store) :
    LineReport × Repl × Store :=
  if r.pending.isEmpty && line.all Text.isBlank then (⟨.finished, "", ""⟩, r, s)
  else
    let text := r.pending ++ line ++ ['\n']
    match evalLine ev fuel env text s with
    | (report, s') =>
      match report.ending with
      | .incomplete => (report, { r with pending := text }, s')
      | _ => (report, ⟨[], r.history.remember (String.ofList (Text.trim text))⟩, s')

/-- Everything the loop printed, and the history it ended with. -/
structure Transcript where
  stdout : String
  stderr : String
  history : History

/-- Take all lines up to the end of the input, printing behind what was printed before. Nothing comes
    of a loop that ran out of fuel. -/
def run (ev : Evaluator) (fuel : Nat) (env : EnvId) (stdout stderr : String) (r : Repl) :
    List (List Char) → Store → Option (Transcript × Store)
  | [], s => some (⟨stdout ++ r.prompt ++ farewell, stderr, r.history⟩, s)
  | line :: rest, s =>
    match r.feed ev fuel env line s with
    | (report, r', s') =>
      if report.ending = .outOfFuel then none
      else run ev fuel env (stdout ++ r.prompt ++ report.stdout) (stderr ++ report.stderr) r' rest s'

end Repl

end FlatScheme.Shell
