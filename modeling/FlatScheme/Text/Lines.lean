/-!
Cutting text into lines.

A line ends at a newline, which is dropped together with a carriage return right in front of it. What
follows the last newline is a line of its own unless it is empty.
-/

namespace FlatScheme.Text

/-- A finished line from its characters in reverse, without the carriage return of its line end. -/
def lineOfReverse : List Char → List Char
  | '\r' :: line => line.reverse
  | line => line.reverse

/-- The lines of a text behind the characters of a line already begun, which are kept in reverse. -/
def linesFrom : List Char → List Char → List (List Char)
  | [], [] => []
  | line, [] => [line.reverse]
  | line, c :: cs =>
    if c = '\n' then lineOfReverse line :: linesFrom [] cs else linesFrom (c :: line) cs

/-- The lines of a text. -/
def lines (cs : List Char) : List (List Char) := linesFrom [] cs

end FlatScheme.Text
