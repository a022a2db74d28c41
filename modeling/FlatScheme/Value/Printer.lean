import FlatScheme.Value

/-!
The written form of values and expressions.

A written form is a list of *writes*, the pieces handed to an output one after the other; the text is
their concatenation. Parentheses, separators and the quote mark are writes of their own, and each atom
is one write.
-/

namespace FlatScheme

/-- A character inside a string literal. Only the quote, the backslash, newline, tab and carriage
    return are escaped. -/
def escapeChar (c : Char) : List Char :=
  match c with
  | '"' => ['\\', '"']
  | '\\' => ['\\', '\\']
  | '\n' => ['\\', 'n']
  | '\t' => ['\\', 't']
  | '\r' => ['\\', 'r']
  | c => [c]

/-- A string literal. -/
def stringLiteral (s : String) : String :=
  String.ofList ('"' :: s.toList.flatMap escapeChar ++ ['"'])

/-- A boolean literal. -/
def boolLiteral (b : Bool) : String := if b then "#t" else "#f"

/-- The written form of a host procedure. -/
def primitiveText (name : String) : String := "#<primitive " ++ name ++ ">"

namespace Value

/-- The single write of a value that is no pair. -/
def atomText : Value → String
  | .num n => n.text
  | .str s => stringLiteral s
  | .sym x => x
  | .bool b => boolLiteral b
  | .prim p => primitiveText p.name
  | .broken _ name _ => primitiveText name
  | .closure _ _ _ _ => "#<lambda>"
  | .nil | .emptyPair | .pair _ _ => "()"

mutual

/-- The writes of a value, in front of `after`. -/
def writesBefore : Value → List String → List String
  | .emptyPair, after => "(" :: ")" :: after
  | .pair car cdr, after => "(" :: writesBefore car (tailWrites cdr after)
  | v, after => v.atomText :: after

/-- The writes of what follows the first element of a list, the closing parenthesis included. -/
def tailWrites : Value → List String → List String
  | .nil, after => ")" :: after
  | .emptyPair, after => ")" :: after
  | .pair car cdr, after => " " :: writesBefore car (tailWrites cdr after)
  | v, after => " . " :: v.atomText :: ")" :: after

end

/-- The writes of a value. -/
def writes (v : Value) : List String := v.writesBefore []

/-- The text of a value. -/
def text (v : Value) : String := String.join v.writes

end Value

namespace Expr

mutual

/-- The writes of an expression, in front of `after`. A quoted boolean needs no quote mark. -/
def writesBefore : Expr → List String → List String
  | .absent, after => "()" :: after
  | .num n, after => n.text :: after
  | .str s, after => stringLiteral s :: after
  | .sym x, after => x :: after
  | .quoted (.bool b), after => boolLiteral b :: after
  | .quoted d, after => "'" :: d.writesBefore after
  | .list [], after => "(" :: ")" :: after
  | .list (x :: xs), after => "(" :: writesBefore x (restWrites xs after)

/-- The writes of the items after the first, the closing parenthesis included. -/
def restWrites : List Expr → List String → List String
  | [], after => ")" :: after
  | x :: xs, after => " " :: writesBefore x (restWrites xs after)

end

/-- The writes of an expression. -/
def writes (e : Expr) : List String := e.writesBefore []

/-- The text of an expression. -/
def text (e : Expr) : String := String.join e.writes

end Expr

end FlatScheme
