import FlatScheme.Text.Classes
import FlatScheme.Text.PrintTable

/-!
Arbitrary text shown between double quotes in messages of the command line.

Printable characters stand for themselves, except the double quote and the backslash, which are
escaped. Seven control characters have a letter of their own, and any other character is shown by
its code in hexadecimal: two digits for controls of ASCII, four or eight beyond.
-/

namespace FlatScheme.Text

/-- Private-use characters, which may occur in names but are not printable. -/
def isPrivate (n : Nat) : Bool :=
  (0xe000 ≤ n && n ≤ 0xf8ff) || (0xf0000 ≤ n && n ≤ 0xffffd) ||
    (0x100000 ≤ n && n ≤ 0x10fffd)

/-- Letters, marks, numbers, punctuation, symbols and the ASCII space. -/
def isPrintable (c : Char) : Bool :=
  let n := c.toNat
  if n < 128 then 0x20 ≤ n && n < 0x7f
  else (beginsName c && !isPrivate n) || printRanges.any fun r => r.1 ≤ n && n ≤ r.2

/-- A number in hexadecimal, padded with zeros to at least `width` digits. -/
def hexText (width n : Nat) : List Char :=
  let ds := Nat.toDigits 16 n
  List.replicate (width - ds.length) '0' ++ ds

/-- The letter of a control character that has one. -/
def controlLetter? (c : Char) : Option Char :=
  match c with
  | '\x07' => some 'a'
  | '\x08' => some 'b'
  | '\x0c' => some 'f'
  | '\n' => some 'n'
  | '\r' => some 'r'
  | '\t' => some 't'
  | '\x0b' => some 'v'
  | _ => none

/-- One character of a literal. -/
def literalChar (c : Char) : List Char :=
  if c = '"' || c = '\\' then ['\\', c]
  else if isPrintable c then [c]
  else match controlLetter? c with
    | some letter => ['\\', letter]
    | none =>
      if c.toNat < 0x80 then '\\' :: 'x' :: hexText 2 c.toNat
      else if c.toNat < 0x10000 then '\\' :: 'u' :: hexText 4 c.toNat
      else '\\' :: 'U' :: hexText 8 c.toNat

/-- Text as a quoted literal. -/
def literal (s : String) : String :=
  String.ofList ('"' :: s.toList.flatMap literalChar ++ ['"'])

end FlatScheme.Text
