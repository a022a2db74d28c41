import FlatScheme.Text.Lines

/-!
The history of what was typed: texts, oldest first, of which only the newest thousand are kept.
-/

namespace FlatScheme.Shell

/-- Texts typed so far, oldest first. -/
abbrev History := List String

namespace History

/-- How many texts are kept. -/
def capacity : Nat := 1000

/-- Keep the newest texts. -/
def keepNewest (h : History) : History := h.drop (h.length - capacity)

/-- Remember a text, unless it repeats the last one. -/
def remember (h : History) (text : String) : History :=
  if h.getLast? = some text then h else keepNewest (h ++ [text])

/-- The history that a file holds, one text a line. -/
def ofFile (cs : List Char) : History := keepNewest ((Text.lines cs).map String.ofList)

/-- The file that holds a history. -/
def toFile (h : History) : String := String.join (h.map (· ++ "\n"))

end History

end FlatScheme.Shell
