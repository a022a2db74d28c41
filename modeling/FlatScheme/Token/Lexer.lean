import FlatScheme.Text.Classes
import FlatScheme.Token

/-!
From characters to tokens.

Every function takes the unread characters and gives back those it leaves unread, whatever it finds.
Blanks and comments are passed over by `seek`; the token at the first other character is cut out by
`scan`. Block comments nest.

NUL counts as the end of the input wherever it is met, but it is always consumed and reading can go on
behind it. Looking ahead one character consumes a NUL as well, which is why the two characters that may
open or close a comment mark, and the booleans, have cases of their own for it.

`lex_token_length` states that a token costs at least one character, so reading all tokens of a text
comes to an end.
-/

namespace FlatScheme.Lexer

open Text (nul isBlank beginsName continuesName hexDigit?)

/-- A syntax error instead of a token. -/
def bad {α : Type} (e : SyntaxError) : Except Stop α := .error (.fault (.syntaxError e))

/-- What stands at the end of the characters: the stream's failure, or else `ending`. -/
def atEnd {α : Type} (failure : Option String) (ending : Except Stop α) : Except Stop α :=
  match failure with
  | some reason => .error (.fault (.stream reason))
  | none => ending

theorem atEnd_eq_ok {α : Type} {failure : Option String} {ending : Except Stop α} {a : α} :
    atEnd failure ending = .ok a ↔ failure = none ∧ ending = .ok a := by
  cases failure <;> simp [atEnd]

/-! ### Blanks and comments -/

/-- Where `seek` is: in code, in a comment up to the end of the line, or inside `outer + 1` nested block
    comments. -/
inductive Region where
  | code
  | line
  | block (outer : Nat)

/-- Pass over blanks and comments. The result is the first other character, consumed, or what was found
    instead of one. -/
def seek (failure : Option String) : Region → List Char → Except Stop Char × List Char
  | .code, '#' :: '|' :: cs => seek failure (.block 0) cs
  | .code, ';' :: cs => seek failure .line cs
  | .code, c :: cs =>
    if c = nul then (.error .finish, cs)
    else if isBlank c then seek failure .code cs
    else (.ok c, cs)
  | .line, c :: cs => seek failure (if c = '\n' || c = nul then .code else .line) cs
  | .block outer, '#' :: '|' :: cs => seek failure (.block (outer + 1)) cs
  | .block 0, '|' :: '#' :: cs => seek failure .code cs
  | .block (outer + 1), '|' :: '#' :: cs => seek failure (.block outer) cs
  | .block outer, '#' :: '\x00' :: cs => seek failure (.block outer) cs
  | .block outer, '|' :: '\x00' :: cs => seek failure (.block outer) cs
  | .block outer, c :: cs =>
    if c = nul then (bad .unterminatedComment, cs) else seek failure (.block outer) cs
  | .block _, [] => (atEnd failure (bad .unterminatedComment), [])
  | .code, [] => (atEnd failure (.error .finish), [])
  | .line, [] => (atEnd failure (.error .finish), [])

/-! ### String literals -/

/-- Where in a string literal the scanner is: among plain characters, behind a backslash, or in a
    hexadecimal escape of value `code` so far. -/
inductive StringPart where
  | plain
  | escape
  | hex (code : Nat)

/-- The character that a backslash and `c` stand for. -/
def escaped? (c : Char) : Option Char :=
  match c with
  | '\\' => some '\\'
  | '"' => some '"'
  | 'a' => some '\x07'
  | 'b' => some '\x08'
  | 't' => some '\t'
  | 'n' => some '\n'
  | 'r' => some '\r'
  | _ => none

/-- The character of a code point; the replacement character stands for a surrogate. -/
def charOfCode (code : Nat) : Char := if code.isValidChar then Char.ofNat code else Text.replacement

/-- The rest of a string literal; `done` holds its characters so far in reverse. The end of the input
    inside an escape reads as NUL, which no escape allows. -/
def scanString (failure : Option String) :
    StringPart → List Char → List Char → Except Stop Token × List Char
  | .plain, done, c :: cs =>
    if c = nul then (bad .unterminatedString, cs)
    else if c = '"' then (.ok (.str (String.ofList done.reverse)), cs)
    else if c = '\\' then scanString failure .escape done cs
    else scanString failure .plain (c :: done) cs
  | .plain, _, [] => (atEnd failure (bad .unterminatedString), [])
  | .escape, done, c :: cs =>
    if c = 'x' then scanString failure (.hex 0) done cs
    else match escaped? c with
      | some d => scanString failure .plain (d :: done) cs
      | none => (bad (.invalidEscape c), cs)
  | .escape, _, [] => (atEnd failure (bad (.invalidEscape nul)), [])
  | .hex code, done, c :: cs =>
    if c = ';' then scanString failure .plain (charOfCode code :: done) cs
    else match hexDigit? c with
      | some d =>
        if 0x10ffff < code * 16 + d then (bad .hexOutOfRange, cs)
        else scanString failure (.hex (code * 16 + d)) done cs
      | none => (bad (.invalidHexDigit c), cs)
  | .hex _, _, [] => (atEnd failure (bad (.invalidHexDigit nul)), [])

/-! ### Words: names and numbers -/

/-- Make a token of the longest word that begins with `first`. A NUL behind it is consumed; if the stream
    fails behind it the word is lost. -/
def scanWord (failure : Option String) (make : List Char → Except Stop Token) (first : Char)
    (cs : List Char) : Except Stop Token × List Char :=
  let word := make (first :: cs.takeWhile continuesName)
  match cs.dropWhile continuesName with
  | [] => (atEnd failure word, [])
  | c :: rest => (word, if c = nul then rest else c :: rest)

/-- A word as a name. -/
def asName (word : List Char) : Except Stop Token := .ok (.sym (String.ofList word))

/-- A word as a number, or as `otherwise` says. -/
def asNumber (otherwise : List Char → Except Stop Token) (word : List Char) : Except Stop Token :=
  match Number.read? word with
  | some n => .ok (.num n)
  | none => otherwise word

/-! ### Tokens -/

/-- A boolean, spelled `#` and `letter`, must not run on into a longer word. -/
def scanBool (b : Bool) (letter : Char) : List Char → Except Stop Token × List Char
  | [] => (.ok (.bool b), [])
  | c :: cs =>
    if continuesName c then (bad (.invalidToken ['#', letter, c]), c :: cs)
    else (.ok (.bool b), if c = nul then cs else c :: cs)

/-- What follows a `#` that opens no block comment. -/
def scanHash (failure : Option String) : List Char → Except Stop Token × List Char
  | [] => (atEnd failure (bad (.invalidToken ['#', nul])), [])
  | c :: cs =>
    if c = 't' then scanBool true 't' cs
    else if c = 'f' then scanBool false 'f' cs
    else if c = ';' then (.ok .skip, cs)
    else (bad (.invalidToken ['#', c]), cs)

/-- The token that begins with `c`. -/
def scan (failure : Option String) (c : Char) (cs : List Char) : Except Stop Token × List Char :=
  if c = '(' then (.ok .open, cs)
  else if c = ')' then (.ok .close, cs)
  else if c = '\x27' then (.ok .quote, cs)
  else if c = '"' then scanString failure .plain [] cs
  else if c = '#' then scanHash failure cs
  else if c = '-' || c = '+' || c = '.' then scanWord failure (asNumber asName) c cs
  else if c.isDigit then scanWord failure (asNumber fun word => bad (.invalidNumber word)) c cs
  else if beginsName c then scanWord failure asName c cs
  else (bad (.invalidCharacter c), cs)

/-- The next token, and the characters behind it. -/
def lex (failure : Option String) (cs : List Char) : Except Stop Token × List Char :=
  match seek failure .code cs with
  | (.ok c, rest) => scan failure c rest
  | (.error stop, rest) => (.error stop, rest)

/-! ### Tokens cost characters -/

theorem seek_length (failure : Option String) (region : Region) (cs : List Char) :
    (seek failure region cs).2.length ≤ cs.length ∧
      (∀ c, (seek failure region cs).1 = .ok c → (seek failure region cs).2.length < cs.length) := by
  fun_induction seek failure region cs <;> grind [atEnd_eq_ok, bad]

theorem scanString_length (failure : Option String) (part : StringPart) (done cs : List Char) :
    (scanString failure part done cs).2.length ≤ cs.length := by
  fun_induction scanString failure part done cs <;> grind

theorem scanWord_length (failure : Option String) (make : List Char → Except Stop Token) (first : Char)
    (cs : List Char) : (scanWord failure make first cs).2.length ≤ cs.length := by
  have h : (cs.dropWhile continuesName).length ≤ cs.length :=
    (List.dropWhile_sublist _).length_le
  unfold scanWord
  split <;> grind

theorem scanBool_length (b : Bool) (letter : Char) (cs : List Char) :
    (scanBool b letter cs).2.length ≤ cs.length := by
  fun_cases scanBool b letter cs <;> grind

theorem scanHash_length (failure : Option String) (cs : List Char) :
    (scanHash failure cs).2.length ≤ cs.length := by
  have := scanBool_length
  fun_cases scanHash failure cs <;> grind

theorem scan_length (failure : Option String) (c : Char) (cs : List Char) :
    (scan failure c cs).2.length ≤ cs.length := by
  have := scanString_length failure .plain [] cs
  have := scanHash_length failure cs
  have := scanWord_length failure
  unfold scan
  grind

/-- A token costs at least one character. -/
theorem lex_token_length {failure : Option String} {cs rest : List Char} {t : Token}
    (h : lex failure cs = (.ok t, rest)) : rest.length < cs.length := by
  have hseek := seek_length failure .code cs
  unfold lex at h
  split at h
  · next c mid heq =>
    have hscan := scan_length failure c mid
    rw [h] at hscan
    rw [heq] at hseek
    exact Nat.lt_of_le_of_lt hscan (hseek.2 c rfl)
  · simp at h

end FlatScheme.Lexer
