import FlatScheme.Text.NameTable

/-!
Character classes of the language's text: blanks, the characters that can begin a name, and those
that can continue a name or a number.

NUL belongs to no class: the reader takes it for the end of the input.
-/

namespace FlatScheme.Text

/-- The character of code zero, which the reader takes for the end of the input. -/
def nul : Char := '\x00'

/-- What stands for a character that cannot be had. -/
def replacement : Char := '\ufffd'

/-- White space. -/
def isBlank (c : Char) : Bool :=
  let n := c.toNat
  (0x9 ≤ n && n ≤ 0xd) || n == 0x20 || n == 0x85 || n == 0xa0 || n == 0x1680 ||
    (0x2000 ≤ n && n ≤ 0x200a) || n == 0x2028 || n == 0x2029 || n == 0x202f || n == 0x205f ||
    n == 0x3000

/-- ASCII characters of the categories allowed in names, letters apart. -/
def asciiMarks : List Char :=
  ['!', '"', '#', '$', '%', '&', '\'', '*', '+', ',', '-', '.', '/', ':', ';', '<', '=', '>', '?',
   '@', '\\', '^', '_', '\x60', '|', '~']

/-- May the character begin a name? Quotes, signs and comment marks are in this class too: the reader
    deals with those before it asks. -/
def beginsName (c : Char) : Bool :=
  if c.toNat < 128 then c.isAlpha || asciiMarks.contains c
  else nameRanges.any fun r => r.1 ≤ c.toNat && c.toNat ≤ r.2

/-- Does the character end a name wherever it stands? -/
def isDelimiter (c : Char) : Bool :=
  c == nul || c == '(' || c == ')' || c == '"' || c == ';' || c == '\''

/-- May the character continue a name or a number? -/
def continuesName (c : Char) : Bool :=
  !isDelimiter c && (c.isDigit || beginsName c)

/-- Cut blanks off both ends. -/
def trim (cs : List Char) : List Char :=
  ((cs.dropWhile isBlank).reverse.dropWhile isBlank).reverse

/-- The value of a hexadecimal digit. -/
def hexDigit? (c : Char) : Option Nat :=
  if '0' ≤ c && c ≤ '9' then some (c.toNat - '0'.toNat)
  else if 'A' ≤ c && c ≤ 'F' then some (c.toNat - 'A'.toNat + 10)
  else if 'a' ≤ c && c ≤ 'f' then some (c.toNat - 'a'.toNat + 10)
  else none

end FlatScheme.Text
