import FlatScheme.Eval

/-!
Completing the word at the end of a line, from the keywords and then the bound names.
-/

namespace FlatScheme.Shell

/-- The characters that part a line into words for completion. -/
def isWordBreak (c : Char) : Bool := ['(', ')', ' ', '\x27', '\t', '\n'].contains c

/-- The ways to complete a line: what stands before the last word, followed by each name that begins with
    that word. An empty word is not completed. -/
def completions (names : List String) (line : List Char) : List String :=
  let word := (line.reverse.takeWhile (!isWordBreak ·)).reverse
  let before := line.take (line.length - word.length)
  if word.isEmpty then []
  else ((Keyword.spellings ++ names).filter fun name => word.isPrefixOf name.toList).map fun name =>
    String.ofList before ++ name

end FlatScheme.Shell
