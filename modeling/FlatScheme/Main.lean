import FlatScheme.Shell.Command
import FlatScheme.Text.Utf8

/-!
The executable: hands arguments, files and input to `FlatScheme.Shell` and carries out what comes back.
Input from a terminal is taken line by line, so that each answer appears before the next prompt.
-/

namespace FlatScheme.Main

open Shell

/-- Steps granted to one loop: more than any machine will take. -/
def fuel : Nat := 0x4000000000000000

/-- Why a file could not be opened. -/
def reason : IO.Error → String
  | .noFileOrDirectory .. => "no such file or directory"
  | .permissionDenied .. => "permission denied"
  | e => toString e

/-- Read a file. A directory opens, and fails to be read. -/
def load (path : String) : IO (Except String Source) := do
  try
    return .ok ⟨Text.decode (← IO.FS.readBinFile path).toList, none⟩
  catch
    | .inappropriateType .. => return .ok ⟨[], some ("read " ++ path ++ ": is a directory")⟩
    | e => return .error (Directory.cannotOpen path (reason e))

/-- Write a history where the report wants it. -/
def save (label : String) (r : Report) : IO Report :=
  match r.save with
  | none => return r
  | some (path, text) =>
    try
      IO.FS.writeFile path text
      return r.afterSaving label (.ok ())
    catch e => return r.afterSaving label (.error (Directory.cannotOpen path (reason e)))

/-- Print what is left of a report and give its exit code. -/
def finish (r : Report) : IO UInt32 := do
  let r ← save programName r
  IO.print r.stdout
  IO.eprint r.stderr
  return r.exit.toUInt32

/-- The loop at a terminal. -/
partial def converse (ev : Evaluator) (path : String) (env : EnvId) (r : Repl) (s : Store) :
    IO UInt32 := do
  IO.print r.prompt
  (← IO.getStdout).flush
  let line ← (← IO.getStdin).getLine
  match Text.lines line.toList with
  | [] => finish ⟨0, Repl.farewell, "", historyToSave path r.history⟩
  | text :: _ =>
    let (report, r', s') := r.feed ev fuel env text s
    IO.print report.stdout
    IO.eprint report.stderr
    converse ev path env r' s'

/-- Everything there is on the input. -/
def readInput : IO (List Char) := do
  return Text.decode (← (← IO.getStdin).readBinToEnd).toList

/-- Run the command. -/
def run (args : List String) : IO UInt32 := do
  let history := defaultHistory (← IO.getEnv "LITTLE_HISTORY") (← IO.getEnv "HOME")
  match plan history args with
  | .stop exit stderr => finish ⟨exit, "", stderr, none⟩
  | .run ev path [] =>
    let (env, s) := Store.empty.newGlobal
    if ← (← IO.getStdin).isTty then
      let old ← if path = "" then pure (.error "") else load path
      converse ev path env (.start (loadHistory ⟨fun _ => old, [], true, history⟩ path)) s
    else
      let host : Host := ⟨fun path => .error path, ← readInput, false, history⟩
      finish ((runInput ev fuel host env s).getD .quiet)
  | .run ev _ paths =>
    let (env, s) := Store.empty.newGlobal
    let files ← paths.mapM fun path => return (path, ← load path)
    let host : Host := ⟨fun path => (files.lookup path).getD (.error path), [], false, history⟩
    finish ((runFiles ev fuel host env paths s).getD .quiet)

end FlatScheme.Main

/-- The entry point. -/
def main (args : List String) : IO UInt32 := FlatScheme.Main.run args
