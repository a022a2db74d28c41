import FlatScheme.Token

/-!
A working directory as a value: files by name, and no directories inside. The command can be run
against it without touching a disk.

A path is followed name by name, starting at the working directory or, behind a leading slash, at the
root. Every name but the last has to lead to a directory, and so has the last if a slash follows it. Of
what lies outside the working directory only the root, `/tmp`, `/dev` and `/dev/null` are known: any
other name is missing there, and a file made there is not seen again.
-/

namespace FlatScheme.Shell

/-- Files by name. -/
structure Directory where
  files : List (String × String)

/-- Where a path may lead. -/
inductive Place where
  | here
  | root
  | devices
  /-- Some directory whose contents are not known. -/
  | outside
  | file (name : String)
  /-- The device that reads as empty and forgets what is written. -/
  | sink
  deriving DecidableEq

/-- Why a path leads nowhere. -/
inductive PathFault where
  | missing
  | notDirectory
  | isDirectory
  | tooLong
  | invalid
  deriving DecidableEq

def PathFault.message : PathFault → String
  | .missing => "no such file or directory"
  | .notDirectory => "not a directory"
  | .isDirectory => "is a directory"
  | .tooLong => "file name too long"
  | .invalid => "invalid argument"

namespace Place

def isDirectory : Place → Bool
  | .here | .root | .devices | .outside => true
  | .file _ | .sink => false

/-- The directory above. The root is above itself. -/
def parent : Place → Place
  | .root | .devices => .root
  | _ => .outside

end Place

/-- The names of a path. Slashes may be repeated. -/
def pathNames (path : String) : List String := (path.splitOn "/").filter (· != "")

/-- Where a path starts. -/
def pathStart (path : String) : Place := if path.startsWith "/" then .root else .here

/-- The longest name in bytes. -/
def longestName : Nat := 255

/-- The longest path in bytes. -/
def longestPath : Nat := 4095

/-- Fail if no system would follow the path: one with a NUL, an empty one, one too long. -/
def admissible (path : String) : Except PathFault Unit :=
  if path.toList.contains '\x00' then .error .invalid
  else if path = "" then .error .missing
  else if longestPath < path.utf8ByteSize then .error .tooLong
  else .ok ()

namespace Directory

/-- The text of a file. -/
def read? (d : Directory) (name : String) : Option String := d.files.lookup name

/-- Look a name up among the contents of a directory. -/
def find (d : Directory) (place : Place) (name : String) : Except PathFault Place :=
  if longestName < name.utf8ByteSize then .error .tooLong
  else match place, name with
    | .here, name => if (d.read? name).isSome then .ok (.file name) else .error .missing
    | .root, "dev" => .ok .devices
    | .root, "tmp" => .ok .outside
    | .devices, "null" => .ok .sink
    | _, _ => .error .missing

/-- Take one name of a path. -/
def enter (d : Directory) (place : Place) (name : String) : Except PathFault Place :=
  if !place.isDirectory then .error .notDirectory
  else if name = "." then .ok place
  else if name = ".." then .ok place.parent
  else d.find place name

/-- Take names one after the other. -/
def walk (d : Directory) (start : Place) (names : List String) : Except PathFault Place :=
  names.foldlM d.enter start

/-- Follow a path to something that exists. -/
def locate (d : Directory) (path : String) : Except PathFault Place := do
  admissible path
  let place ← d.walk (pathStart path) (pathNames path)
  if path.endsWith "/" && !place.isDirectory then .error .notDirectory else .ok place

/-- The message that a path could not be opened. -/
def cannotOpen (path reason : String) : String := "open " ++ path ++ ": " ++ reason

/-- Open a path to read it. A directory can be opened, but reading it fails. -/
def openFile (d : Directory) (path : String) : Except String Source :=
  match d.locate path with
  | .ok (.file name) => .ok (.ofString ((d.read? name).getD ""))
  | .ok .sink => .ok (.ofString "")
  | .ok _ => .ok ⟨[], some ("read " ++ path ++ ": is a directory")⟩
  | .error fault => .error (cannotOpen path fault.message)

/-- Put a text under a name in a directory, over the file of that name if there is one. -/
def put (d : Directory) (place : Place) (name text : String) : Except PathFault Directory :=
  match d.enter place name with
  | .ok (.file name) => .ok ⟨(name, text) :: d.files.filter (·.1 != name)⟩
  | .ok .sink => .ok d
  | .ok _ => .error .isDirectory
  | .error .missing => .ok (if place = .here then ⟨(name, text) :: d.files⟩ else d)
  | .error fault => .error fault

/-- Write to a path. A name with a slash behind it can only be a directory, whether it exists or not. -/
def create (d : Directory) (path text : String) : Except PathFault Directory := do
  admissible path
  let names := pathNames path
  match names.getLast? with
  | none => .error .isDirectory
  | some name =>
    let place ← d.walk (pathStart path) names.dropLast
    if place.isDirectory && path.endsWith "/" then .error .isDirectory
    else d.put place name text

/-- Write a file, new or over an old one. -/
def write (d : Directory) (path text : String) : Except String Directory :=
  match d.create path text with
  | .ok d' => .ok d'
  | .error fault => .error (cannotOpen path fault.message)

end Directory

end FlatScheme.Shell
