import FlatScheme.Shell.Batch
import FlatScheme.Shell.Directory
import FlatScheme.Shell.Flags
import FlatScheme.Shell.Repl

/-!
The command: what it does with its arguments, as a function of what surrounds it.

With paths it runs the files in order in one global environment. Without, it runs its input, or opens the
interactive loop if the input is a terminal. It ends with an exit code, two texts, and possibly a history
to be saved.
-/

namespace FlatScheme.Shell

/-- The name the command calls itself by. -/
def programName : String := "little"

/-- What the command finds around it. -/
structure Host where
  /-- Open a file to read, or say why not. -/
  openFile : String → Except String Source
  stdin : List Char
  terminal : Bool
  defaultHistory : String

/-- What the command leaves behind: exit code, output, and a path with the history to write there. -/
structure Report where
  exit : Nat
  stdout : String
  stderr : String
  save : Option (String × String)

namespace Report

/-- Everything went well and nothing was printed. -/
def quiet : Report := ⟨0, "", "", none⟩

/-- A failure, announced behind a label. -/
def failure (label message : String) : Report := ⟨1, "", label ++ ": " ++ message ++ "\n", none⟩

/-- The report once saving the history has been tried. -/
def afterSaving (r : Report) (label : String) : Except String Unit → Report
  | .ok _ => { r with save := none }
  | .error reason =>
    { r with
      exit := 1
      stderr := r.stderr ++ label ++ ": saving history: " ++ reason ++ "\n"
      save := none }

end Report

/-- Where the history is kept by default: where the environment says, else in the home directory, else
    nowhere. -/
def defaultHistory (chosen home : Option String) : String :=
  let chosen := chosen.getD ""
  let home := home.getD ""
  if chosen != "" then chosen else if home != "" then home ++ "/.little_history" else ""

/-- The evaluator of a given name. -/
def evaluatorOf? (variant : String) (maxDepth : Int) : Option Evaluator :=
  match variant with
  | "tco" => some ⟨false, maxDepth⟩
  | "basic" => some ⟨true, maxDepth⟩
  | _ => none

/-- The complaint about an evaluator's name. -/
def unknownVariant (variant : String) : String :=
  "unknown variant " ++ Text.literal variant ++ " (want basic or tco)"

/-- How to call the command. -/
def usage (history : String) : String :=
  "usage: " ++ programName ++ " [flags] [path to file ...]\n" ++
  "  -history string\n    \tREPL history file" ++
    (if history = "" then "" else " (default " ++ Text.literal history ++ ")") ++ "\n" ++
  "  -max-depth int\n    \tmaximum nested evaluation depth (default " ++
    toString Evaluator.defaultMaxDepth ++ ")\n" ++
  "  -variant string\n    \tevaluator variant: basic or tco (default \"tco\")\n"

/-- The options before any flag is read. -/
def defaultOptions (history : String) : Options := ⟨"tco", Evaluator.defaultMaxDepth, history⟩

/-- Run files in order. One that cannot be opened, or fails, ends the command. -/
def runFiles (ev : Evaluator) (fuel : Nat) (host : Host) (env : EnvId) :
    List String → Store → Option Report
  | [], _ => some .quiet
  | path :: rest, s =>
    match host.openFile path with
    | .error message => some (.failure programName message)
    | .ok src =>
      match runBatch ev fuel env src s with
      | (.done, s') => runFiles ev fuel host env rest s'
      | (stopped, _) =>
        stopped.message?.map fun message => .failure programName (path ++ ": " ++ message)

/-- Run the input. -/
def runInput (ev : Evaluator) (fuel : Nat) (host : Host) (env : EnvId) (s : Store) : Option Report :=
  match (runBatch ev fuel env ⟨host.stdin, none⟩ s).1 with
  | .done => some .quiet
  | stopped => stopped.message?.map (.failure programName)

/-- The history kept under a path; the empty path keeps none. -/
def loadHistory (host : Host) (path : String) : History :=
  if path = "" then []
  else match host.openFile path with
    | .ok src => .ofFile src.unread
    | .error _ => []

/-- What remains to be saved at the end of the loop. -/
def historyToSave (path : String) (history : History) : Option (String × String) :=
  if path = "" then none else some (path, history.toFile)

/-- The interactive loop over the whole input. -/
def interact (ev : Evaluator) (fuel : Nat) (host : Host) (path : String) (env : EnvId) (s : Store) :
    Option Report :=
  (Repl.run ev fuel env "" "" (.start (loadHistory host path)) (Text.lines host.stdin) s).map fun t =>
    ⟨0, t.1.stdout, t.1.stderr, historyToSave path t.1.history⟩

/-- What the arguments ask for. -/
inductive Plan where
  /-- Stop at once: exit code and what to say. -/
  | stop (exit : Nat) (stderr : String)
  | run (ev : Evaluator) (history : String) (paths : List String)

/-- Read the arguments. -/
def plan (history : String) (args : List String) : Plan :=
  match parseFlags (defaultOptions history) args with
  | .error stop =>
    match stop.message? with
    | none => .stop 0 (usage history)
    | some message => .stop 2 (message ++ "\n" ++ usage history)
  | .ok (options, paths) =>
    match evaluatorOf? options.variant options.maxDepth with
    | none => .stop 2 (unknownVariant options.variant ++ "\n" ++ usage history)
    | some ev => .run ev options.history paths

/-- The whole command; nothing comes of one that ran out of fuel. -/
def command (fuel : Nat) (host : Host) (args : List String) : Option Report :=
  match plan host.defaultHistory args with
  | .stop exit stderr => some ⟨exit, "", stderr, none⟩
  | .run ev history paths =>
    let (env, s) := Store.empty.newGlobal
    match paths with
    | [] =>
      if host.terminal then interact ev fuel host history env s else runInput ev fuel host env s
    | paths => runFiles ev fuel host env paths s

end FlatScheme.Shell
