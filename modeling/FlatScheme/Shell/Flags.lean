import FlatScheme.Eval
import FlatScheme.Text.Literal

/-!
Command-line flags.

A flag is written with one or two dashes; its value follows behind `=` or as the next argument. Flags
end at `--`, which is dropped, or at the first argument that is no flag. The whole number a flag takes
may have a sign, a prefix for base 2, 8 or 16, and underscores between its digits.
-/

namespace FlatScheme.Shell

/-! ### Whole numbers -/

/-- Why a text is not a number of 64 bits. -/
inductive NumeralFault where
  | malformed
  | outOfRange
  deriving DecidableEq, Repr

def NumeralFault.message : NumeralFault → String
  | .malformed => "parse error"
  | .outOfRange => "value out of range"

/-- The value of a digit of a base up to 36. -/
def digitValue? (c : Char) : Option Nat :=
  if c.isDigit then some (c.toNat - '0'.toNat)
  else if c.isAlpha then some (c.toLower.toNat - 'a'.toNat + 10)
  else none

/-- Read digits behind the value `n` of those before, passing over underscores. The first digit that does
    not belong to the base, or takes the value past 64 bits, decides. -/
def readDigits (base : Nat) : Nat → List Char → Except NumeralFault Nat
  | n, [] => .ok n
  | n, c :: cs =>
    if c = '_' then readDigits base n cs
    else match digitValue? c with
      | some d =>
        if base ≤ d then .error .malformed
        else if 0x10000000000000000 ≤ n * base + d then .error .outOfRange
        else readDigits base (n * base + d) cs
      | none => .error .malformed

/-- Does every underscore stand between digits? What stands in front of the text is told by
    `afterDigit`, for a digit or the mark of a base, and `afterUnderscore`. -/
def underscoresFit : (afterDigit afterUnderscore : Bool) → List Char → Bool
  | _, afterUnderscore, [] => !afterUnderscore
  | afterDigit, _, c :: cs =>
    if c = '_' then afterDigit && underscoresFit false true cs else underscoresFit true false cs

/-- The base of an unsigned numeral, its digits, and whether a mark announced the base. A lone leading
    zero announces base 8 and counts as a digit. -/
def numeralBase : List Char → Nat × List Char × Bool
  | '0' :: c :: d :: rest =>
    if c = 'b' || c = 'B' then (2, d :: rest, true)
    else if c = 'o' || c = 'O' then (8, d :: rest, true)
    else if c = 'x' || c = 'X' then (16, d :: rest, true)
    else (8, c :: d :: rest, true)
  | '0' :: rest => (8, rest, true)
  | cs => (10, cs, false)

/-- An unsigned numeral. -/
def readNumeral (cs : List Char) : Except NumeralFault Nat :=
  if cs.isEmpty then .error .malformed
  else
    let (base, digits, announced) := numeralBase cs
    match readDigits base 0 digits with
    | .ok n => if underscoresFit announced false digits then .ok n else .error .malformed
    | .error fault => .error fault

/-- A signed number of 64 bits. -/
def readWhole (cs : List Char) : Except NumeralFault Int :=
  let (negative, digits) := Decimal.sign cs
  match readNumeral digits with
  | .ok n =>
    if negative then if 0x8000000000000000 < n then .error .outOfRange else .ok (-(n : Int))
    else if 0x8000000000000000 ≤ n then .error .outOfRange
    else .ok n
  | .error fault => .error fault

/-! ### Flags -/

/-- The flags of the command. -/
inductive Flag where
  | history | maxDepth | variant
  deriving DecidableEq, Repr

def Flag.ofName? : String → Option Flag
  | "history" => some .history
  | "max-depth" => some .maxDepth
  | "variant" => some .variant
  | _ => none

/-- What the flags decide. -/
structure Options where
  variant : String
  maxDepth : Int
  history : String
  deriving DecidableEq

/-- Why the flags do not lead to a run. -/
inductive FlagStop where
  | help
  | badSyntax (arg : String)
  | undefined (name : String)
  | missingValue (name : String)
  | invalidValue (value name : String) (fault : NumeralFault)
  deriving DecidableEq

/-- The complaint about the flags; asking for help is no mistake. -/
def FlagStop.message? : FlagStop → Option String
  | .help => none
  | .badSyntax arg => some ("bad flag syntax: " ++ arg)
  | .undefined name => some ("flag provided but not defined: -" ++ name)
  | .missingValue name => some ("flag needs an argument: -" ++ name)
  | .invalidValue value name fault =>
    some ("invalid value " ++ Text.literal value ++ " for flag -" ++ name ++ ": " ++ fault.message)

/-- What an argument is before it is known which flags there are. -/
inductive Argument where
  | positional
  | terminator
  | malformed
  | flag (name : String) (value : Option String)

/-- A flag without its dashes: a name, and a value behind the first `=`. -/
def splitFlag : List Char → Argument
  | [] => .malformed
  | c :: cs =>
    if c = '-' || c = '=' then .malformed
    else
      let name := String.ofList (c :: cs.takeWhile (· != '='))
      match cs.dropWhile (· != '=') with
      | [] => .flag name none
      | _ :: value => .flag name (some (String.ofList value))

/-- What kind of argument a text is. -/
def classify : List Char → Argument
  | ['-', '-'] => .terminator
  | '-' :: '-' :: rest => splitFlag rest
  | '-' :: c :: rest => splitFlag (c :: rest)
  | _ => .positional

/-- Set a flag. -/
def Options.set (o : Options) (flag : Flag) (name value : String) : Except FlagStop Options :=
  match flag with
  | .history => .ok { o with history := value }
  | .variant => .ok { o with variant := value }
  | .maxDepth =>
    match readWhole value.toList with
    | .ok n => .ok { o with maxDepth := n }
    | .error fault => .error (.invalidValue value name fault)

/-- Take the flags off the front of the arguments. -/
def parseFlags (o : Options) : List String → Except FlagStop (Options × List String)
  | [] => .ok (o, [])
  | arg :: rest =>
    match classify arg.toList with
    | .positional => .ok (o, arg :: rest)
    | .terminator => .ok (o, rest)
    | .malformed => .error (.badSyntax arg)
    | .flag name value =>
      match Flag.ofName? name, value, rest with
      | none, _, _ => .error (if name = "help" || name = "h" then .help else .undefined name)
      | some flag, some value, rest =>
        match o.set flag name value with
        | .ok o' => parseFlags o' rest
        | .error stop => .error stop
      | some flag, none, value :: rest' =>
        match o.set flag name value with
        | .ok o' => parseFlags o' rest'
        | .error stop => .error stop
      | some _, none, [] => .error (.missingValue name)

end FlatScheme.Shell
